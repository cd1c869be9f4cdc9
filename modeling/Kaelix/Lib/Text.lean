import Mathlib.Data.List.Infix

/-!
# Texts

`stripPrefix p s` is what follows `p` in `s`, if `s` starts with `p`.  Two texts that disagree
somewhere are never both the start of one text, which decides between formats that are told apart
by their first characters.
-/

namespace Kaelix.Lib

/-- `str::strip_prefix`. -/
def stripPrefix (p s : String) : Option String :=
  if p.toList.isPrefixOf s.toList then some (String.ofList (s.toList.drop p.toList.length))
  else none

theorem stripPrefix_append (p s : String) : stripPrefix p (p ++ s) = some s := by
  rw [stripPrefix, String.toList_append, if_pos, List.drop_left, String.ofList_toList]
  exact List.isPrefixOf_iff_prefix.mpr (List.prefix_append _ _)

theorem stripPrefix_eq_none {p q : String} (hpq : ¬ p.toList <+: q.toList)
    (hqp : ¬ q.toList <+: p.toList) (s : String) : stripPrefix p (q ++ s) = none := by
  rw [stripPrefix, String.toList_append, if_neg]
  intro h
  have hp := List.isPrefixOf_iff_prefix.mp h
  rcases List.prefix_or_prefix_of_prefix hp (List.prefix_append _ _) with h | h
  · exact hpq h
  · exact hqp h

/-! ## Splitting and joining -/

/-- `str::split` at a character. -/
def split (c : Char) (s : String) : List String := (s.toList.splitOn c).map String.ofList

/-- The pieces with a character between them. -/
def join (c : Char) (pieces : List String) : String :=
  String.ofList ([c].intercalate (pieces.map String.toList))

/-- Every character changed by `f`. -/
def mapChars (f : Char → Char) (s : String) : String := String.ofList (s.toList.map f)

/-- `str::replace` of a character. -/
def replaceChar (a b : Char) (s : String) : String := mapChars (fun c => if c = a then b else c) s

section

variable {α : Type} [DecidableEq α] {x y : α} {l : List α}

private theorem splitOn_map (f : α → α) (h : ∀ c ∈ l, f c = y ↔ c = x) :
    (l.map f).splitOn y = (l.splitOn x).map (List.map f) := by
  induction l with
  | nil => rfl
  | cons c l ih =>
    have ih := ih fun d hd => h d (List.mem_cons_of_mem _ hd)
    rw [List.map_cons, List.splitOn_cons_eq_if_modifyHead, List.splitOn_cons_eq_if_modifyHead, ih]
    by_cases hc : c = x
    · rw [if_pos (by simpa using (h c List.mem_cons_self).mpr hc), if_pos (by simpa using hc)]
      rfl
    · rw [if_neg (by simpa using fun he => hc ((h c List.mem_cons_self).mp he)),
        if_neg (by simpa using hc)]
      cases l.splitOn x <;> rfl

private theorem notMem_of_mem_splitOn {piece : List α} (h : piece ∈ l.splitOn x) : x ∉ piece := by
  induction l generalizing piece with
  | nil =>
    rw [List.splitOn_nil, List.mem_singleton] at h
    rw [h]
    exact List.not_mem_nil
  | cons c l ih =>
    rw [List.splitOn_cons_eq_if_modifyHead] at h
    split at h
    · rcases List.mem_cons.mp h with rfl | hrest
      · exact List.not_mem_nil
      · exact ih hrest
    · rename_i hc
      cases hl : l.splitOn x with
      | nil => exact absurd hl (List.splitOn_ne_nil x l)
      | cons first =>
        rw [hl, List.modifyHead_cons] at h
        rcases List.mem_cons.mp h with rfl | hrest
        · have hfirst : x ∉ first := ih (hl ▸ List.mem_cons_self)
          intro hmem
          rcases List.mem_cons.mp hmem with rfl | hmem
          · exact hc (by simp)
          · exact hfirst hmem
        · exact ih (hl ▸ List.mem_cons_of_mem _ hrest)

omit [DecidableEq α] in
private theorem length_intercalate_append (x : α) (first second : List (List α))
    (hfirst : first ≠ []) (hsec : second ≠ []) :
    ([x].intercalate (first ++ second)).length =
      ([x].intercalate first).length + 1 + ([x].intercalate second).length := by
  induction first with
  | nil => exact absurd rfl hfirst
  | cons piece first ih =>
    cases first with
    | nil =>
      cases second with
      | nil => exact absurd rfl hsec
      | cons =>
        rw [List.singleton_append, List.intercalate_cons_cons]
        simp only [List.length_append, List.intercalate_singleton, List.length_singleton]
    | cons =>
      have ih := ih (List.cons_ne_nil _ _)
      rw [List.cons_append, List.cons_append, List.intercalate_cons_cons,
        List.intercalate_cons_cons, List.length_append, List.length_append,
        ← List.cons_append, ih]
      simp only [List.length_append, List.length_singleton]
      omega

omit [DecidableEq α] in
private theorem map_intercalate (f : α → α) (x : α) (pieces : List (List α)) :
    ([x].intercalate pieces).map f = [f x].intercalate (pieces.map (List.map f)) := by
  induction pieces with
  | nil => rfl
  | cons piece pieces ih =>
    cases pieces with
    | nil => simp
    | cons =>
      rw [List.intercalate_cons_cons, List.map_append, List.map_append, ih]
      simp only [List.map_cons, List.map_nil, List.intercalate_cons_cons]

omit [DecidableEq α] in
private theorem mem_intercalate {pieces : List (List α)} (h : y ∈ [x].intercalate pieces) :
    y = x ∨ ∃ piece ∈ pieces, y ∈ piece := by
  induction pieces with
  | nil => cases h
  | cons piece pieces ih =>
    cases pieces with
    | nil => exact .inr ⟨piece, List.mem_cons_self, by simpa using h⟩
    | cons =>
      rw [List.intercalate_cons_cons, List.append_assoc, List.mem_append,
        List.mem_append, List.mem_singleton] at h
      rcases h with h | h | h
      · exact .inr ⟨piece, List.mem_cons_self, h⟩
      · exact .inl h
      · rcases ih h with h | ⟨p, hp, hy⟩
        · exact .inl h
        · exact .inr ⟨p, List.mem_cons_of_mem _ hp, hy⟩

end

theorem mapChars_join (f : Char → Char) (c : Char) (pieces : List String) :
    mapChars f (join c pieces) = join (f c) (pieces.map (mapChars f)) := by
  rw [mapChars, join, join, String.toList_ofList, map_intercalate, List.map_map, List.map_map]
  congr 2
  apply List.map_congr_left
  intro s _
  exact String.toList_ofList.symm

variable {c d : Char} {pieces : List String}

theorem mem_join (h : d ∈ (join c pieces).toList) : d = c ∨ ∃ s ∈ pieces, d ∈ s.toList := by
  rw [join, String.toList_ofList] at h
  rcases mem_intercalate h with h | ⟨l, hl, hd⟩
  · exact .inl h
  · obtain ⟨s, hs, rfl⟩ := List.mem_map.mp hl
    exact .inr ⟨s, hs, hd⟩

theorem join_split (c : Char) (s : String) : join c (split c s) = s := by
  rw [join, split, List.map_map]
  have hid : String.toList ∘ String.ofList = id := funext fun _ => String.toList_ofList
  rw [hid, List.map_id, List.intercalate_splitOn, String.ofList_toList]

theorem split_join (hne : pieces ≠ []) (h : ∀ s ∈ pieces, c ∉ s.toList) :
    split c (join c pieces) = pieces := by
  rw [split, join, String.toList_ofList, List.splitOn_intercalate, List.map_map]
  · have hid : String.ofList ∘ String.toList = id := funext fun _ => String.ofList_toList
    rw [hid, List.map_id]
  · intro l hl
    obtain ⟨s, hs, rfl⟩ := List.mem_map.mp hl
    exact h s hs
  · simpa using hne

theorem notMem_of_mem_split {s piece : String} (h : piece ∈ split c s) : c ∉ piece.toList := by
  obtain ⟨l, hl, rfl⟩ := List.mem_map.mp h
  rw [String.toList_ofList]
  exact notMem_of_mem_splitOn hl

theorem split_ne_nil (c : Char) (s : String) : split c s ≠ [] := by
  rw [split, ne_eq, List.map_eq_nil_iff]
  exact List.splitOn_ne_nil c s.toList

theorem eq_of_prefix_of_join_eq {first second : List String} (hne : first ≠ [])
    (hpre : first <+: second) (h : join c first = join c second) : first = second := by
  obtain ⟨rest, rfl⟩ := hpre
  by_cases hrest : rest = []
  · rw [hrest, List.append_nil]
  · have hlen := congrArg (fun s : String => s.toList.length) h
    simp only [join, String.toList_ofList, List.map_append] at hlen
    rw [length_intercalate_append c _ _ (by simpa using hne) (by simpa using hrest)] at hlen
    omega

theorem split_replaceChar {s : String} (h : d ∉ s.toList) :
    split d (replaceChar c d s) = split c s := by
  have hpieces : ∀ piece ∈ s.toList.splitOn c,
      piece.map (fun e => if e = c then d else e) = piece := by
    intro piece hpiece
    have hc := notMem_of_mem_splitOn hpiece
    rw [List.map_congr_left fun e he => if_neg fun heq : e = c => hc (heq ▸ he)]
    exact List.map_id piece
  rw [split, replaceChar, mapChars, String.toList_ofList, splitOn_map, List.map_congr_left hpieces,
    split]
  · simp
  · intro e he
    by_cases hec : e = c
    · simp [hec]
    · simp only [hec, if_false, iff_false]
      exact fun hed => h (hed ▸ he)

end Kaelix.Lib
