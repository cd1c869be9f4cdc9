import Mathlib.Algebra.GroupWithZero.Nat
import Mathlib.Algebra.Order.BigOperators.Group.List
import Mathlib.Data.Set.Lattice
import Mathlib.Order.CompletePartialOrder

/-!
# Tilings

Pieces are laid out one behind the other.  Each takes some room, and each is recorded with a
length that need not be the room it takes.
-/

namespace Kaelix.Lib.Tiling

/-- A part of a file. -/
structure Stretch where
  start : Nat
  length : Nat
  deriving DecidableEq

variable {s : Stretch}

namespace Stretch

/-- The positions in it. -/
def positions (s : Stretch) : Set Nat := Set.Ico s.start (s.start + s.length)

theorem mem_positions {p : Nat} :
    p ∈ s.positions ↔ s.start ≤ p ∧ p < s.start + s.length := Iff.rfl

end Stretch

/-- The stretches are disjoint and cover exactly the positions from `lo` to `hi`. -/
structure Tiles (stretches : List Stretch) (lo hi : Nat) : Prop where
  disjoint : stretches.Pairwise fun s t => Disjoint s.positions t.positions
  covers : ∀ p, (∃ s ∈ stretches, p ∈ s.positions) ↔ lo ≤ p ∧ p < hi

variable {l l' : List Stretch} {lo hi : Nat}

theorem Tiles.perm (h : Tiles l lo hi) (hperm : l.Perm l') :
    Tiles l' lo hi where
  disjoint := (hperm.pairwise_iff fun hst => hst.symm).mp h.disjoint
  covers p := by
    rw [← h.covers p]
    exact exists_congr fun s => and_congr_left fun _ => hperm.mem_iff.symm

theorem tiles_perm_iff (hperm : l.Perm l') : Tiles l lo hi ↔ Tiles l' lo hi :=
  ⟨fun h => h.perm hperm, fun h => h.perm hperm.symm⟩

theorem Tiles.concat (h : Tiles l lo hi) (hle : lo ≤ hi) (n : Nat) :
    Tiles (l ++ [⟨hi, n⟩]) lo (hi + n) where
  disjoint := by
    refine List.pairwise_append.mpr ⟨h.disjoint, List.pairwise_singleton _ _, ?_⟩
    intro s hs t ht
    rw [List.mem_singleton.mp ht]
    refine Set.disjoint_left.mpr fun p hp hin => ?_
    have hend := ((h.covers p).mp ⟨s, hs, hp⟩).2
    have hstart := (Stretch.mem_positions.mp hin).1
    dsimp only at hstart
    omega
  covers p := by
    have hlast : p ∈ (Stretch.mk hi n).positions ↔ hi ≤ p ∧ p < hi + n := Stretch.mem_positions
    simp only [List.mem_append, List.mem_singleton, or_and_right, exists_or,
      exists_eq_left, hlast]
    rw [h.covers p]
    omega

theorem tiles_cons_iff :
    Tiles (s :: l) lo hi ↔
      (∀ t ∈ l, Disjoint s.positions t.positions) ∧
        l.Pairwise (fun s t => Disjoint s.positions t.positions) ∧
        ∀ p, (p ∈ s.positions ∨ ∃ t ∈ l, p ∈ t.positions) ↔ lo ≤ p ∧ p < hi := by
  constructor
  · intro h
    obtain ⟨hfirst, hrest⟩ := List.pairwise_cons.mp h.disjoint
    exact ⟨hfirst, hrest, fun p => by simpa using h.covers p⟩
  · rintro ⟨hfirst, hrest, hcov⟩
    exact ⟨List.pairwise_cons.mpr ⟨hfirst, hrest⟩, fun p => by simpa using hcov p⟩

/-- A piece: the room it takes, and the length it is recorded with. -/
structure Piece where
  room : Nat
  length : Nat
  deriving DecidableEq

/-- The length of all pieces. -/
def room (pieces : List Piece) : Nat := (pieces.map Piece.room).sum

@[simp] theorem room_nil : room [] = 0 := rfl

@[simp] theorem room_cons (p : Piece) (ps : List Piece) :
    room (p :: ps) = p.room + room ps := List.sum_cons

/-- The recorded stretches of pieces that are laid out from an offset on. -/
def layout : Nat → List Piece → List Stretch
  | _, [] => []
  | offset, p :: ps => ⟨offset, p.length⟩ :: layout (offset + p.room) ps

/-- The rooms and the lengths, added up from `offset` and from `total` on, agree wherever
a piece with a length begins and at the end. -/
def Agrees : Nat → Nat → List Piece → Prop
  | offset, total, [] => offset = total
  | offset, total, p :: ps =>
    (p.length ≠ 0 → offset = total) ∧ Agrees (offset + p.room) (total + p.length) ps

instance decidableAgrees : ∀ (offset total : Nat) (ps : List Piece),
    Decidable (Agrees offset total ps)
  | offset, total, [] => inferInstanceAs (Decidable (offset = total))
  | offset, total, p :: ps =>
    have := decidableAgrees (offset + p.room) (total + p.length) ps
    inferInstanceAs (Decidable ((p.length ≠ 0 → offset = total) ∧ _))

variable {ps : List Piece} {offset : Nat}

private theorem le_of_mem_layout (h : s ∈ layout offset ps) : offset ≤ s.start := by
  induction ps generalizing offset with
  | nil => cases h
  | cons p ps ih =>
    rcases List.mem_cons.mp h with rfl | h
    · exact Nat.le_refl _
    · exact Nat.le_trans (Nat.le_add_right _ _) (ih h)

private theorem tiles_layout_cons_zero {p : Piece} (hzero : p.length = 0) :
    Tiles (layout offset (p :: ps)) lo hi ↔ Tiles (layout (offset + p.room) ps) lo hi := by
  have hemp : (Stretch.mk offset p.length).positions = ∅ := by
    rw [Stretch.positions, hzero]
    exact Set.Ico_self offset
  rw [layout, tiles_cons_iff, hemp]
  constructor
  · rintro ⟨-, hrest, hcov⟩
    exact ⟨hrest, fun p => by simpa using hcov p⟩
  · intro h
    exact ⟨fun t _ => Set.empty_disjoint _, h.disjoint, fun p => by simpa using h.covers p⟩

private theorem tiles_layout_cons_pos {p : Piece} (hpos : p.length ≠ 0) (hle : lo ≤ hi) :
    Tiles (layout offset (p :: ps)) lo hi ↔
      offset = lo ∧ lo + p.length ≤ hi ∧
        Tiles (layout (offset + p.room) ps) (lo + p.length) hi := by
  have hstart : ∀ t ∈ layout (offset + p.room) ps, ∀ q ∈ t.positions, offset ≤ q := by
    intro t ht q hq
    have hafter := le_of_mem_layout ht
    have hq := (Stretch.mem_positions.mp hq).1
    omega
  rw [layout, tiles_cons_iff]
  constructor
  · rintro ⟨hfirst, hrest, hcov⟩
    have hlo : lo ≤ offset ∧ offset < hi :=
      (hcov offset).mp (.inl (Stretch.mem_positions.mpr (by dsimp only; omega)))
    have hlast : offset + p.length - 1 < hi :=
      ((hcov (offset + p.length - 1)).mp
        (.inl (Stretch.mem_positions.mpr (by dsimp only; omega)))).2
    have heq : offset = lo := by
      rcases (hcov lo).mpr ⟨Nat.le_refl _, by omega⟩ with hin | ⟨t, ht, hin⟩
      · exact Nat.le_antisymm (Stretch.mem_positions.mp hin).1 hlo.1
      · exact Nat.le_antisymm (hstart t ht lo hin) hlo.1
    refine ⟨heq, by omega, hrest, fun q => ?_⟩
    constructor
    · rintro ⟨t, ht, hin⟩
      have hrange := (hcov q).mp (.inr ⟨t, ht, hin⟩)
      have hnot : q ∉ (Stretch.mk offset p.length).positions :=
        Set.disjoint_right.mp (hfirst t ht) hin
      rw [Stretch.mem_positions] at hnot
      dsimp only at hnot
      omega
    · rintro ⟨hge, hlt⟩
      rcases (hcov q).mpr ⟨by omega, hlt⟩ with hin | hin
      · have hin := (Stretch.mem_positions.mp hin).2
        dsimp only at hin
        omega
      · exact hin
  · rintro ⟨rfl, hfits, h⟩
    refine ⟨fun t ht => ?_, h.disjoint, fun q => ?_⟩
    · refine Set.disjoint_left.mpr fun q hq hin => ?_
      have hq := (Stretch.mem_positions.mp hq).2
      have hrange := (h.covers q).mp ⟨t, ht, hin⟩
      dsimp only at hq
      omega
    · rw [h.covers q, Stretch.mem_positions]
      dsimp only
      omega

/-- The recorded stretches tile the room of the pieces iff the sums agree.  The tiling
starts at `total`, which the pieces before have reached. -/
theorem tiles_layout_iff (offset total : Nat) (ps : List Piece) :
    (total ≤ offset + room ps ∧ Tiles (layout offset ps) total (offset + room ps)) ↔
      Agrees offset total ps := by
  induction ps generalizing offset total with
  | nil =>
    rw [Agrees, room_nil, Nat.add_zero]
    constructor
    · rintro ⟨hle, h⟩
      have hnone : ¬ (total ≤ total ∧ total < offset) := by
        rw [← h.covers total]
        simp [layout]
      omega
    · rintro rfl
      refine ⟨Nat.le_refl _, .nil, fun p => ?_⟩
      simp only [layout, List.not_mem_nil, false_and, exists_false, false_iff]
      omega
  | cons p ps ih =>
    have hroom : offset + room (p :: ps) = offset + p.room + room ps := by
      rw [room_cons, Nat.add_assoc]
    rw [Agrees, ← ih, hroom]
    by_cases hzero : p.length = 0
    · rw [tiles_layout_cons_zero hzero, hzero, Nat.add_zero]
      exact ⟨fun h => ⟨fun hne => absurd rfl hne, h⟩, And.right⟩
    · constructor
      · rintro ⟨hle, h⟩
        obtain ⟨heq, hfits, hrest⟩ := (tiles_layout_cons_pos hzero hle).mp h
        exact ⟨fun _ => heq, hfits, hrest⟩
      · rintro ⟨heq, hfits, hrest⟩
        have hle : total ≤ offset + p.room + room ps := by omega
        exact ⟨hle, (tiles_layout_cons_pos hzero hle).mpr ⟨heq hzero, hfits, hrest⟩⟩

theorem Agrees.eq {total : Nat} (h : Agrees offset total ps) (hpos : ∀ p ∈ ps, p.length ≠ 0) :
    offset = total := by
  cases ps with
  | nil => exact h
  | cons p => exact h.1 (hpos p List.mem_cons_self)

theorem agrees_iff_of_ne_zero (offset : Nat) (hpos : ∀ p ∈ ps, p.length ≠ 0) :
    Agrees offset offset ps ↔ ∀ p ∈ ps, p.length = p.room := by
  induction ps generalizing offset with
  | nil => exact iff_of_true rfl (by simp)
  | cons p ps ih =>
    have hrest : ∀ q ∈ ps, q.length ≠ 0 := fun q hq => hpos q (List.mem_cons_of_mem p hq)
    rw [List.forall_mem_cons]
    constructor
    · rintro ⟨-, h⟩
      have heq : offset + p.room = offset + p.length := h.eq hrest
      rw [heq] at h
      exact ⟨by omega, (ih _ hrest).mp h⟩
    · rintro ⟨heq, h⟩
      refine ⟨fun _ => rfl, ?_⟩
      rw [heq]
      exact (ih _ hrest).mpr h

end Kaelix.Lib.Tiling
