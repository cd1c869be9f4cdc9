import Mathlib.Data.List.FinRange
import Mathlib.Data.List.Flatten
import Mathlib.Data.List.Perm.Basic

/-!
# Several queues, served in turn

A family of queues is a function `Fin n → List α`.

An element that waits in a queue has a rank: the number of elements before it times the number of
queues, and the turns until its queue comes up.  So in every system whose events serve or append,
it is served within the number of serves that its rank allows (`served_within`).
-/

namespace Kaelix.Lib.Queues

open scoped List

variable {n : Nat} {α : Type}

/-! ### Contents -/

variable {a : α}

section

variable (f : Fin n → List α)

/-- All elements, queue by queue. -/
def contents : List α := (List.finRange n).flatMap f

theorem mem_contents {f : Fin n → List α} : a ∈ contents f ↔ ∃ j, a ∈ f j := by
  simp [contents]

theorem contents_eq_nil {f : Fin n → List α} : contents f = [] ↔ ∀ j, f j = [] := by
  simp [contents]

theorem sublist_contents {f g : Fin n → List α} (h : ∀ j, f j <+ g j) : contents f <+ contents g :=
  List.Sublist.flatMap_right _ fun j _ => h j

theorem update_sublist {f : Fin n → List α} {j : Fin n} {l : List α} (h : l <+ f j)
    (i : Fin n) : Function.update f j l i <+ f i := by
  by_cases hi : i = j
  · subst hi
    rwa [Function.update_self]
  · rw [Function.update_of_ne hi]

theorem perm_contents_congr {f g : Fin n → List α} (h : ∀ j, f j ~ g j) :
    contents f ~ contents g :=
  List.Perm.flatMap_left _ fun j _ => h j

theorem flatMap_eq_of_single {β : Type} {l : List β} (hnd : l.Nodup) {b : β} (hb : b ∈ l)
    {f : β → List α} (hoth : ∀ c ∈ l, c ≠ b → f c = []) : l.flatMap f = f b := by
  obtain ⟨before, after, rfl⟩ := List.append_of_mem hb
  rw [List.nodup_middle, List.nodup_cons, List.mem_append, not_or] at hnd
  have hbef : before.flatMap f = [] := by
    rw [List.flatMap_eq_nil_iff]
    intro c hc
    exact hoth c (by simp [hc]) fun heq => hnd.1.1 (heq ▸ hc)
  have hafter : after.flatMap f = [] := by
    rw [List.flatMap_eq_nil_iff]
    intro c hc
    exact hoth c (by simp [hc]) fun heq => hnd.1.2 (heq ▸ hc)
  rw [List.flatMap_append, List.flatMap_cons, hbef, hafter, List.nil_append, List.append_nil]

variable (j : Fin n)

theorem perm_contents_update (l : List α) :
    (contents (Function.update f j l) ++ f j).Perm (contents f ++ l) := by
  obtain ⟨before, after, hsplit⟩ := List.append_of_mem (List.mem_finRange j)
  have hnd := List.nodup_finRange n
  rw [hsplit, List.nodup_middle, List.nodup_cons, List.mem_append, not_or] at hnd
  have hbef : before.flatMap (Function.update f j l) = before.flatMap f := by
    apply List.flatMap_congr
    intro i hi
    have hne : i ≠ j := fun h => hnd.1.1 (h ▸ hi)
    exact Function.update_of_ne hne l f
  have hafter : after.flatMap (Function.update f j l) = after.flatMap f := by
    apply List.flatMap_congr
    intro i hi
    have hne : i ≠ j := fun h => hnd.1.2 (h ▸ hi)
    exact Function.update_of_ne hne l f
  simp only [contents, hsplit, List.flatMap_append, List.flatMap_cons, hbef, hafter,
    Function.update_self, List.append_assoc]
  apply List.Perm.append_left
  calc l ++ (after.flatMap f ++ f j)
    _ ~ (after.flatMap f ++ f j) ++ l := List.perm_append_comm
    _ ~ (f j ++ after.flatMap f) ++ l := List.Perm.append_right l List.perm_append_comm
    _ = f j ++ (after.flatMap f ++ l) := List.append_assoc _ _ _

theorem perm_contents_take {out rest : List α}
    (hsplit : out ++ rest ~ f j) : contents (Function.update f j rest) ++ out ~ contents f := by
  apply (List.perm_append_right_iff rest).mp
  calc contents (Function.update f j rest) ++ out ++ rest
    _ = contents (Function.update f j rest) ++ (out ++ rest) := List.append_assoc _ _ _
    _ ~ contents (Function.update f j rest) ++ f j := List.Perm.append_left _ hsplit
    _ ~ contents f ++ rest := perm_contents_update f j rest

/-- An element at the end of a queue. -/
def push (a : α) : Fin n → List α :=
  Function.update f j (f j ++ [a])

theorem push_apply (j i : Fin n) (a : α) : push f j a i = if i = j then f j ++ [a] else f i := by
  rw [push, Function.update_apply]

theorem perm_contents_push (a : α) : (contents (push f j a)).Perm (a :: contents f) := by
  have h := perm_contents_update f j (f j ++ [a])
  apply (List.perm_append_right_iff (f j)).mp
  apply h.trans
  calc contents f ++ (f j ++ [a])
    _ = (contents f ++ f j) ++ [a] := (List.append_assoc _ _ _).symm
    _ ~ [a] ++ (contents f ++ f j) := List.perm_append_comm
    _ = (a :: contents f) ++ f j := rfl

end

theorem perm_contents_filter (f : α → Fin n) (l : List α) :
    contents (fun j => l.filter fun a => f a = j) ~ l := by
  induction l with
  | nil => exact List.Perm.of_eq (contents_eq_nil.mpr fun _ => rfl)
  | cons a l ih =>
    have hupdate : (fun j => (a :: l).filter fun b => f b = j) =
        Function.update (fun j => l.filter fun b => f b = j) (f a)
          (a :: l.filter fun b => f b = f a) := by
      funext j
      by_cases hj : j = f a
      · subst hj
        simp
      · rw [Function.update_of_ne hj, List.filter_cons_of_neg (by simpa using Ne.symm hj)]
    have hperm := perm_contents_update (fun j => l.filter fun b => f b = j) (f a)
      (a :: l.filter fun b => f b = f a)
    rw [← hupdate] at hperm
    apply (List.perm_append_right_iff (l.filter fun b => f b = f a)).mp
    apply hperm.trans
    apply List.perm_middle.trans
    exact (ih.append_right _).cons a

/-! ### Turns -/

/-- The queue after this one; after the last comes the first. -/
def next (i : Fin n) : Fin n := ⟨(i.val + 1) % n, Nat.mod_lt _ i.pos⟩

theorem next_val (i : Fin n) : (next i).val = if i.val + 1 = n then 0 else i.val + 1 := by
  have hi := i.isLt
  simp only [next]
  split
  · next h => rw [h, Nat.mod_self]
  · exact Nat.mod_eq_of_lt (by omega)

/-- How many turns from `i` until `j` comes up. -/
def turns (i j : Fin n) : Nat :=
  if i.val ≤ j.val then j.val - i.val else j.val + n - i.val

theorem turns_lt (i j : Fin n) : turns i j < n := by
  have hi := i.isLt
  have hj := j.isLt
  unfold turns
  split <;> omega

theorem turns_self (i : Fin n) : turns i i = 0 := by
  simp [turns]

private theorem turns_next {i j : Fin n} (h : i ≠ j) : turns (next i) j + 1 = turns i j := by
  have hi := i.isLt
  have hj := j.isLt
  have hne : i.val ≠ j.val := fun heq => h (Fin.ext heq)
  unfold turns
  rw [next_val]
  split_ifs <;> omega

theorem turns_next_self (j : Fin n) : turns (next j) j + 1 = n := by
  have hj := j.isLt
  unfold turns
  rw [next_val]
  split_ifs <;> omega

theorem turns_next_lt {c i j : Fin n} (hne : i ≠ j) (hle : turns c i ≤ turns c j) :
    turns (next i) j < turns c j := by
  have hi := i.isLt
  have hj := j.isLt
  have hc := c.isLt
  have hval : i.val ≠ j.val := fun heq => hne (Fin.ext heq)
  unfold turns at hle ⊢
  rw [next_val]
  split_ifs at hle ⊢ <;> omega

/-! ### Serving -/

/-- Queues, and the one whose turn it is. -/
structure Rota (n : Nat) (α : Type) where
  queues : Fin n → List α
  cursor : Fin n

/-- Goes round the queues, for a number of turns at most, up to one that is not empty. -/
def serve : Nat → Rota n α → Option α × Rota n α
  | 0, q => (none, q)
  | rounds + 1, q =>
    match q.queues q.cursor with
    | [] => serve rounds { q with cursor := next q.cursor }
    | a :: rest =>
      (some a, { queues := Function.update q.queues q.cursor rest, cursor := next q.cursor })

theorem serve_cases (rounds : Nat) (q : Rota n α) :
    ((serve rounds q).1 = none ∧ (serve rounds q).2.queues = q.queues ∧
        ∀ j, turns q.cursor j < rounds → q.queues j = []) ∨
      ∃ j a rest, q.queues j = a :: rest ∧
        (∀ i, turns q.cursor i < turns q.cursor j → q.queues i = []) ∧
        serve rounds q =
          (some a, { queues := Function.update q.queues j rest, cursor := next j }) := by
  induction rounds generalizing q with
  | zero => exact .inl ⟨rfl, rfl, fun j hj => absurd hj (Nat.not_lt_zero _)⟩
  | succ rounds ih =>
    cases hqueue : q.queues q.cursor with
    | cons a rest =>
      have hserve : serve (rounds + 1) q = (some a,
          { queues := Function.update q.queues q.cursor rest, cursor := next q.cursor }) := by
        rw [serve, hqueue]
      refine .inr ⟨q.cursor, a, rest, hqueue, fun i hi => ?_, hserve⟩
      rw [turns_self] at hi
      exact absurd hi (Nat.not_lt_zero _)
    | nil =>
      have hserve : serve (rounds + 1) q = serve rounds { q with cursor := next q.cursor } := by
        rw [serve, hqueue]
      rw [hserve]
      -- the queues that come up later are one turn nearer
      have hnear : ∀ j, q.queues j ≠ [] →
          turns (next q.cursor) j + 1 = turns q.cursor j := by
        intro j hj
        apply turns_next
        intro heq
        exact hj (heq ▸ hqueue)
      rcases ih { q with cursor := next q.cursor } with
        ⟨hnone, hsame, hemp⟩ | ⟨j, a, rest, hj, hbef, hsome⟩
      · refine .inl ⟨hnone, hsame, fun j hj => ?_⟩
        by_contra hne
        have hturn := hnear j hne
        exact hne (hemp j (by dsimp only; omega))
      · refine .inr ⟨j, a, rest, hj, fun i hi => ?_, hsome⟩
        have hturn := hnear j (by rw [hj]; exact List.cons_ne_nil a rest)
        by_contra hne
        have hturn' := hnear i hne
        exact hne (hbef i (by dsimp only; omega))

/-! ### Waiting -/

/-- The element waits in a queue behind `p` others. -/
def Waits (q : Rota n α) (j : Fin n) (p : Nat) (a : α) : Prop :=
  ∃ front back, q.queues j = front ++ a :: back ∧ front.length = p

/-- The number of serves that an element has to wait at most. -/
def rank (q : Rota n α) (j : Fin n) (p : Nat) : Nat := p * n + turns q.cursor j

theorem rank_lt (q : Rota n α) (j : Fin n) (p : Nat) : rank q j p < n * (p + 1) := by
  have hturns := turns_lt q.cursor j
  rw [rank, Nat.mul_succ, Nat.mul_comm n p]
  omega

variable {p : Nat}

theorem Waits.serve {q : Rota n α} {j : Fin n} (h : Waits q j p a) :
    (serve n q).1 = some a ∨
      ∃ p', Waits (serve n q).2 j p' a ∧ rank (serve n q).2 j p' < rank q j p := by
  obtain ⟨front, back, hqueue, hfront⟩ := h
  rcases serve_cases n q with ⟨-, -, hemp⟩ | ⟨i, b, rest, hi, hbef, hsome⟩
  · have hnil := hemp j (turns_lt _ _)
    rw [hqueue] at hnil
    exact absurd hnil (by simp)
  · rw [hsome]
    by_cases hij : i = j
    · subst hij
      rw [hqueue] at hi
      cases front with
      | nil =>
        left
        exact congrArg some (List.cons.inj hi).1.symm
      | cons c front =>
        -- the queue had its turn, and is the last to come up again
        right
        have hrest : front ++ a :: back = rest := (List.cons.inj hi).2
        refine ⟨front.length, ⟨front, back, ?_, rfl⟩, ?_⟩
        · simp only [Function.update_self]
          exact hrest.symm
        · have hlast := turns_next_self i
          rw [rank, rank, ← hfront, List.length_cons, Nat.succ_mul]
          dsimp only
          omega
    · -- the cursor has come nearer without passing the queue
      right
      have hle : turns q.cursor i ≤ turns q.cursor j := by
        by_contra hlt
        have hnil := hbef j (by omega)
        rw [hqueue] at hnil
        exact absurd hnil (by simp)
      refine ⟨p, ⟨front, back, ?_, hfront⟩, ?_⟩
      · simp only [Function.update_of_ne (Ne.symm hij)]
        exact hqueue
      · have hnearer := turns_next_lt hij hle
        rw [rank, rank]
        dsimp only
        omega

/-- Nothing but appending to queues. -/
structure Grows (q q' : Rota n α) : Prop where
  cursor : q'.cursor = q.cursor
  queues : ∀ j, q.queues j <+: q'.queues j

theorem Waits.grows {q q' : Rota n α} {j : Fin n} (h : Waits q j p a) (hgrows : Grows q q') :
    Waits q' j p a ∧ rank q' j p = rank q j p := by
  obtain ⟨front, back, hqueue, hfront⟩ := h
  obtain ⟨more, hmore⟩ := hgrows.queues j
  constructor
  · refine ⟨front, back ++ more, ?_, hfront⟩
    rw [← hmore, hqueue, List.append_assoc, List.cons_append]
  · rw [rank, rank, hgrows.cursor]

/-! ### Systems that serve and append -/

section

variable {σ ε : Type} (step : σ → ε → σ) (output : σ → ε → Option (Option α))

/-- What comes out in a run. -/
def outputs : σ → List ε → List (Option α)
  | _, [] => []
  | s, e :: es => (output s e).toList ++ outputs (step s e) es

variable (view : σ → Rota n α)

/-- The event is a serve, or appends at most. -/
def ServesOrGrows (s : σ) (e : ε) : Prop :=
  (output s e = some (serve n (view s)).1 ∧ view (step s e) = (serve n (view s)).2) ∨
    (output s e = none ∧ Grows (view s) (view (step s e)))

variable {step output view}

private theorem mem_take_outputs {es : List ε} {s : σ} {j : Fin n} {b : Nat}
    (hevs : ∀ s, ∀ e ∈ es, ServesOrGrows step output view s e) (hwaits : Waits (view s) j p a)
    (hrank : rank (view s) j p < b) (hlen : b ≤ (outputs step output s es).length) :
    some a ∈ (outputs step output s es).take b := by
  induction es generalizing s p b with
  | nil =>
    have hzero : b ≤ 0 := hlen
    omega
  | cons e es ih =>
    have hrest : ∀ s, ∀ e ∈ es, ServesOrGrows step output view s e :=
      fun s e he => hevs s e (List.mem_cons_of_mem _ he)
    rcases hevs s e List.mem_cons_self with ⟨houtput, hview⟩ | ⟨houtput, hgrows⟩
    · have hcons : outputs step output s (e :: es) =
          (serve n (view s)).1 :: outputs step output (step s e) es := by
        rw [outputs, houtput]
        rfl
      obtain ⟨b, rfl⟩ : ∃ b', b = b' + 1 := ⟨b - 1, by omega⟩
      rw [hcons, List.length_cons] at hlen
      rw [hcons, List.take_succ_cons]
      rcases hwaits.serve with hserved | ⟨p', hwaits', hlower⟩
      · rw [hserved]
        exact List.mem_cons_self
      · rw [← hview] at hwaits' hlower
        apply List.mem_cons_of_mem
        exact ih hrest hwaits' (by omega) (by omega)
    · have hskip : outputs step output s (e :: es) = outputs step output (step s e) es := by
        rw [outputs, houtput]
        rfl
      obtain ⟨hwaits', hsame⟩ := hwaits.grows hgrows
      rw [hskip] at hlen ⊢
      exact ih hrest hwaits' (by omega) hlen

theorem served_within {es : List ε} {s : σ} {j : Fin n}
    (hevs : ∀ s, ∀ e ∈ es, ServesOrGrows step output view s e) (hwaits : Waits (view s) j p a)
    (hlen : n * (p + 1) ≤ (outputs step output s es).length) :
    some a ∈ (outputs step output s es).take (n * (p + 1)) :=
  mem_take_outputs hevs hwaits (rank_lt _ _ _) hlen

end

end Kaelix.Lib.Queues
