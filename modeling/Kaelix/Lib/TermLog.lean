import Mathlib.Data.List.Infix
import Mathlib.Data.List.Pairwise

/-!
# Logs whose entries carry terms

Replicated logs, with no node and no network in sight.  Every entry has a term, and for every term
there is a family `L T` of logs that its author has had.  The author of a term only appends, so
the family is a chain under the prefix order.
-/

namespace Kaelix.Lib

variable {E : Type}

/-- One of the two logs continues the other. -/
def Comparable (l l' : List E) : Prop := l <+: l' ∨ l' <+: l

variable {l l' : List E}

theorem Comparable.symm (h : Comparable l l') : Comparable l' l := Or.symm h

variable {m : List E}

theorem Comparable.of_isPrefix (h : l <+: m) (h' : l' <+: m) : Comparable l l' :=
  List.prefix_or_prefix_of_prefix h h'

theorem Comparable.mono_left (h : l <+: m) (h' : Comparable m l') : Comparable l l' := by
  rcases h' with h' | h'
  · exact .inl (h.trans h')
  · exact Comparable.of_isPrefix h h'

theorem Comparable.eq_of_length {m' : List E} (h : l <+: m) (h' : l' <+: m')
    (hm : Comparable m m') (hlen : l.length = l'.length) : l = l' := by
  have hcomp : Comparable l l' := Comparable.mono_left h (Comparable.mono_left h' hm.symm).symm
  rcases hcomp with hp | hp
  · exact hp.eq_of_length hlen
  · exact (hp.eq_of_length hlen.symm).symm

variable {x : Nat}

theorem Comparable.getElem? (h : Comparable l l') (hx : x < l.length) (hx' : x < l'.length) :
    l[x]? = l'[x]? := by
  rcases h with ⟨t, rfl⟩ | ⟨t, rfl⟩
  · rw [List.getElem?_append_left hx]
  · rw [List.getElem?_append_left hx']

/-! ## Backed logs -/

variable {e : E} {y prev : Nat}

section

variable (term : E → Nat) (L : Nat → List E → Prop)

/-- The logs of each author form a chain. -/
def Chain : Prop := ∀ T l l', L T l → L T l' → Comparable l l'

/-- Each prefix of `l` is a prefix of a log of the author of its last entry. -/
def Backed (l : List E) : Prop := ∀ x e, l[x]? = some e → ∃ m, L (term e) m ∧ l.take (x + 1) <+: m

/-- Terms never fall along the log. -/
def Ascending (l : List E) : Prop := l.Pairwise fun a b => term a ≤ term b

/-- The term of the last entry, or zero. -/
def lastTerm (l : List E) : Nat := (l.getLast?.map term).getD 0

variable {term L}

theorem Backed.nil : Backed term L [] := by
  intro x e h
  simp at h

variable {l : List E}

theorem Backed.mono {L' : Nat → List E → Prop} (hL : ∀ T l, L T l → L' T l)
    (h : Backed term L l) : Backed term L' l := by
  intro x e hx
  obtain ⟨m, hm, hpre⟩ := h x e hx
  exact ⟨m, hL _ _ hm, hpre⟩

theorem Backed.of_isPrefix (h : Backed term L l) (hpre : l' <+: l) : Backed term L l' := by
  obtain ⟨t, rfl⟩ := hpre
  intro x e hx
  have hlt : x < l'.length := (List.getElem?_eq_some_iff.mp hx).1
  obtain ⟨m, hm, hpre⟩ := h x e (by rw [List.getElem?_append_left hlt, hx])
  rw [List.take_append_of_le_length (by omega)] at hpre
  exact ⟨m, hm, hpre⟩

theorem Backed.concat (h : Backed term L l) (he : L (term e) (l ++ [e])) :
    Backed term L (l ++ [e]) := by
  intro x e' hx
  rcases Nat.lt_or_ge x l.length with hlt | hge
  · rw [List.getElem?_append_left hlt] at hx
    obtain ⟨m, hm, hpre⟩ := h x e' hx
    rw [List.take_append_of_le_length (by omega)]
    exact ⟨m, hm, hpre⟩
  · have hx0 : x = l.length := by
      have := (List.getElem?_eq_some_iff.mp hx).1
      simp only [List.length_append, List.length_singleton] at this
      omega
    subst hx0
    obtain rfl : e = e' := by simpa using hx
    exact ⟨_, he, List.take_prefix _ _⟩

section

variable (hL : Chain L) (h : Backed term L l) (h' : Backed term L l') {e' : E} (he : l[x]? = some e)
include hL h h' he

/-- Logs with entries of one term at a position agree up to it. -/
theorem Backed.take_eq (he' : l'[x]? = some e') (hterm : term e = term e') :
    l.take (x + 1) = l'.take (x + 1) := by
  obtain ⟨m, hm, hpre⟩ := h x e he
  obtain ⟨m', hm', hpre'⟩ := h' x e' he'
  rw [← hterm] at hm'
  have hx := (List.getElem?_eq_some_iff.mp he).1
  have hx' := (List.getElem?_eq_some_iff.mp he').1
  exact Comparable.eq_of_length hpre hpre' (hL _ _ _ hm hm') (by
    rw [List.length_take, List.length_take]
    omega)

theorem Backed.getElem?_of_later (he' : l'[y]? = some e') (hterm : term e = term e')
    (hxy : x ≤ y) : l'[x]? = some e := by
  obtain ⟨m, hm, hpre⟩ := h x e he
  obtain ⟨m', hm', hpre'⟩ := h' y e' he'
  rw [← hterm] at hm'
  have hx := (List.getElem?_eq_some_iff.mp he).1
  have hy := (List.getElem?_eq_some_iff.mp he').1
  have hcomp : Comparable (l'.take (y + 1)) (l.take (x + 1)) :=
    Comparable.mono_left hpre' (Comparable.mono_left hpre (hL _ _ _ hm hm')).symm
  have hsame := hcomp.getElem? (x := x) (by rw [List.length_take]; omega)
    (by rw [List.length_take]; omega)
  rwa [List.getElem?_take_of_lt (by omega), List.getElem?_take_of_lt (by omega), he] at hsame

end

section

variable (h : Ascending term l)
include h

theorem Ascending.concat (he : ∀ a ∈ l, term a ≤ term e) :
    Ascending term (l ++ [e]) := by
  refine List.pairwise_append.mpr ⟨h, List.pairwise_singleton _ _, ?_⟩
  intro a ha b hb
  rw [List.mem_singleton.mp hb]
  exact he a ha

theorem Ascending.of_isPrefix (hpre : l' <+: l) : Ascending term l' :=
  h.sublist hpre.sublist

theorem Ascending.le_of_le {a b : E} (ha : l[x]? = some a)
    (hb : l[y]? = some b) (hxy : x ≤ y) : term a ≤ term b := by
  obtain ⟨hx, rfl⟩ := List.getElem?_eq_some_iff.mp ha
  obtain ⟨hy, rfl⟩ := List.getElem?_eq_some_iff.mp hb
  rcases Nat.lt_or_eq_of_le hxy with hlt | rfl
  · exact List.pairwise_iff_getElem.mp h x y hx hy hlt
  · exact Nat.le_refl _

theorem Ascending.append_take (hm : Ascending term m)
    (hprev : prev = 0 ∨ ∃ e, l[prev - 1]? = some e ∧ ∀ b ∈ m, term e ≤ term b) :
    Ascending term (l.take prev ++ m) := by
  refine List.pairwise_append.mpr ⟨h.sublist (List.take_sublist _ _), hm, ?_⟩
  intro a ha b hb
  obtain ⟨x, hx⟩ := List.mem_iff_getElem?.mp ha
  have hlt : x < prev := by
    have := (List.getElem?_eq_some_iff.mp hx).1
    rw [List.length_take] at this
    omega
  rw [List.getElem?_take_of_lt hlt] at hx
  rcases hprev with h0 | ⟨e, he, hnewer⟩
  · omega
  · exact (h.le_of_le hx he (by omega)).trans (hnewer b hb)

theorem Ascending.le_lastTerm {a : E} (ha : a ∈ l) :
    term a ≤ lastTerm term l := by
  rcases List.eq_nil_or_concat l with rfl | ⟨init, z, rfl⟩
  · cases ha
  · rw [lastTerm, List.concat_eq_append, List.getLast?_concat]
    rw [List.concat_eq_append] at ha h
    rcases List.mem_append.mp ha with hinit | hz
    · exact (List.pairwise_append.mp h).2.2 a hinit z (List.mem_singleton_self z)
    · rw [List.mem_singleton.mp hz]
      exact Nat.le_refl _

end

theorem Backed.below_last (h : Backed term L l) (hne : l ≠ []) :
    ∃ m, L (lastTerm term l) m ∧ l <+: m := by
  have hlen := List.length_pos_iff.mpr hne
  have hlast : l[l.length - 1]? = l.getLast? := List.getLast?_eq_getElem?.symm
  obtain ⟨z, hz⟩ : ∃ z, l.getLast? = some z := by
    rw [List.getLast?_eq_some_getLast hne]
    exact ⟨_, rfl⟩
  obtain ⟨m, hm, hpre⟩ := h (l.length - 1) z (hlast.trans hz)
  rw [Nat.sub_add_cancel hlen, List.take_length] at hpre
  refine ⟨m, ?_, hpre⟩
  rw [lastTerm, hz]
  exact hm

/-- The step of leader completeness.  `lv` holds `P`, and `lc` is at least as up
to date as `lv`.  If every author after the last entry of `P`, as far as the last
entry of `lc`, holds `P`, then so does `lc`. -/
theorem Backed.dominates (hL : Chain L) {P lv lc : List E} (hv : Backed term L lv)
    (hc : Backed term L lc) (hasc : Ascending term lv) (hP : P <+: lv)
    (hpos : 0 < lastTerm term P)
    (hup : lastTerm term lv < lastTerm term lc ∨
      lastTerm term lv = lastTerm term lc ∧ lv.length ≤ lc.length)
    (hlater : ∀ m, lastTerm term P < lastTerm term lc → L (lastTerm term lc) m → P <+: m) :
    P <+: lc := by
  have hPne : P ≠ [] := by
    rintro rfl
    exact absurd hpos (by simp [lastTerm])
  have hvne : lv ≠ [] := fun h => hPne (List.prefix_nil.mp (h ▸ hP))
  have hPv : lastTerm term P ≤ lastTerm term lv := by
    obtain ⟨z, hz⟩ : ∃ z, P.getLast? = some z := by
      rw [List.getLast?_eq_some_getLast hPne]
      exact ⟨_, rfl⟩
    have hmem : z ∈ P := List.mem_of_getLast? hz
    have hle := hasc.le_lastTerm (hP.subset hmem)
    rw [lastTerm, hz]
    exact hle
  have hcne : lc ≠ [] := by
    rintro rfl
    have hzero : lastTerm term ([] : List E) = 0 := rfl
    omega
  obtain ⟨m, hm, hcm⟩ := hc.below_last hcne
  rcases hup with hlt | ⟨heq, hlen⟩
  · have hPm := hlater m (by omega) hm
    rcases Comparable.of_isPrefix hPm hcm with h | h
    · exact h
    · -- a shorter `lc` would end inside `P`, whose entries are older
      obtain ⟨z, hz⟩ : ∃ z, lc.getLast? = some z := by
        rw [List.getLast?_eq_some_getLast hcne]
        exact ⟨_, rfl⟩
      have hle := (hasc.of_isPrefix hP).le_lastTerm (h.subset (List.mem_of_getLast? hz))
      have hzc : lastTerm term lc = term z := by rw [lastTerm, hz]; rfl
      omega
  · obtain ⟨m', hm', hvm⟩ := hv.below_last hvne
    rw [heq] at hm'
    have hcomp : Comparable lv lc :=
      Comparable.mono_left hvm (Comparable.mono_left hcm (hL _ _ _ hm hm')).symm
    rcases hcomp with h | h
    · exact hP.trans h
    · have : lc = lv := h.eq_of_length (by have := h.length_le; omega)
      rw [this]
      exact hP

end

/-! ## Writing a segment -/

/-- `entries` stand in `l` after the first `prev` entries. -/
structure Segment (prev : Nat) (entries l : List E) : Prop where
  le : prev ≤ l.length
  entries : entries <+: l.drop prev

variable {entries log : List E}

theorem Segment.splice_eq (h : Segment prev entries l) (hlog : log.take prev = l.take prev) :
    log.take prev ++ entries = l.take (prev + entries.length) := by
  rw [hlog, List.take_add, ← List.prefix_iff_eq_take.mp h.entries]

theorem Segment.length_le (h : Segment prev entries l) : prev + entries.length ≤ l.length := by
  have h₁ := h.le
  have h₂ := h.entries.length_le
  rw [List.length_drop] at h₂
  omega

theorem Segment.getElem? (h : Segment prev entries l) (he : entries[y]? = some e) :
    l[prev + y]? = some e := by
  rw [← List.getElem?_drop]
  obtain ⟨t, ht⟩ := h.entries
  rw [← ht, List.getElem?_append_left (List.getElem?_eq_some_iff.mp he).1]
  exact he

/-- The write is needed: the segment reaches the end of the log, or one of its
entries has another term than the entry it replaces. -/
def Needed (term : E → Nat) (log : List E) (prev : Nat) (entries : List E) : Prop :=
  log.length ≤ prev + entries.length ∨
    ∃ y, y < entries.length ∧
      log[prev + y]?.map term ≠ entries[y]?.map term

instance (term : E → Nat) (log : List E) (prev : Nat) (entries : List E) :
    Decidable (Needed term log prev entries) :=
  inferInstanceAs (Decidable (_ ∨ ∃ y, y < entries.length ∧ _))

/-- A needed write keeps every prefix of the log that is comparable to the
source of the segment. -/
theorem Segment.prefix_take {term : E → Nat} {X : List E} (h : Segment prev entries l)
    (hneed : Needed term log prev entries) (hX : X <+: log) (hcomp : Comparable X l) :
    X <+: l.take (prev + entries.length) := by
  have hle := h.length_le
  have hXlog := hX.length_le
  rcases hneed with hreach | ⟨y, hy, hconf⟩
  · rcases hcomp with hXl | hlX
    · exact List.prefix_take_iff.mpr ⟨hXl, by omega⟩
    · have hlen := hlX.length_le
      have heq : l = X := hlX.eq_of_length (by omega)
      rw [← heq, List.take_of_length_le (by omega)]
  · -- the replaced entry lies behind `X`, where `log` and `l` may differ
    have hent : entries[y]? = l[prev + y]? := by
      rw [h.getElem? (List.getElem?_eq_getElem hy), List.getElem?_eq_getElem hy]
    rcases Nat.lt_or_ge (prev + y) X.length with hlt | hge
    · have hlog : log[prev + y]? = X[prev + y]? := Comparable.getElem? (.inr hX) (by omega) hlt
      have hsame := hcomp.getElem? hlt (by omega)
      rw [hlog, hsame, hent] at hconf
      exact absurd rfl hconf
    · rcases hcomp with hXl | hlX
      · exact List.prefix_take_iff.mpr ⟨hXl, by omega⟩
      · have := hlX.length_le
        omega

end Kaelix.Lib
