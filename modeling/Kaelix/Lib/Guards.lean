/-!
# Guards of read-write locks, in one thread

A computation of one thread that takes read-write locks.  The locks are not reentrant: a request
for a lock that the thread holds in a conflicting mode is never granted, and the computation stops
there with `Stop.conflict`.  It may also stop for a reason of its own.

An `RwLock` is one such lock, with the value in it.  A guard that is created in a statement stays
until the end of the statement.
-/

namespace Kaelix.Lib

/-- How a lock is taken. -/
inductive Mode where
  | read
  | write
  deriving DecidableEq

/-- Why a computation does not end. -/
inductive Stop (L ε : Type) where
  | conflict (lock : L)
  | other (reason : ε)

/-- The locks that are held, and how. -/
abbrev Held (L : Type) := List (L × Mode)

/-- A guard that the thread holds is in the way of the request. -/
def Held.Conflicts {L : Type} (held : Held L) (lock : L) (mode : Mode) : Prop :=
  ∃ mode', (lock, mode') ∈ held ∧ (mode = .write ∨ mode' = .write)

instance {L : Type} [DecidableEq L] (held : Held L) (lock : L) (mode : Mode) :
    Decidable (held.Conflicts lock mode) :=
  decidable_of_iff (∃ g ∈ held, g.1 = lock ∧ (mode = .write ∨ g.2 = .write)) <| by
    constructor
    · rintro ⟨⟨_, mode'⟩, hmem, rfl, h⟩
      exact ⟨mode', hmem, h⟩
    · rintro ⟨mode', hmem, h⟩
      exact ⟨(lock, mode'), hmem, rfl, h⟩

/-- A computation, from the guards and the state that it finds. -/
def Locked (L ε S α : Type) := Held L → S → Except (Stop L ε) (α × S)

namespace Locked

variable {L ε S α β : Type}

instance : Monad (Locked L ε S) where
  pure a := fun _ s => .ok (a, s)
  bind c f := fun held s =>
    match c held s with
    | .ok (a, s) => f a held s
    | .error e => .error e

/-- The state. -/
def get : Locked L ε S S := fun _ s => .ok (s, s)

/-- A change of the state. -/
def modify (f : S → S) : Locked L ε S Unit := fun _ s => .ok ((), f s)

/-- The computation stops with a reason. -/
def stop (reason : ε) : Locked L ε S α := fun _ _ => .error (.other reason)

/-- The computation with one more lock held. -/
def withGuard [DecidableEq L] (lock : L) (mode : Mode) (c : Locked L ε S α) : Locked L ε S α :=
  fun held s =>
    if held.Conflicts lock mode then .error (.conflict lock) else c ((lock, mode) :: held) s

/-- The body for each element in turn. -/
def each (body : β → Locked L ε S Unit) : List β → Locked L ε S Unit
  | [] => pure ()
  | x :: xs => do
    body x
    each body xs

end Locked

/-- From a state with `P` the computation ends with `Q` or stops with `E`. -/
def Triple {L ε S α : Type} (held : Held L) (P : S → Prop) (c : Locked L ε S α)
    (Q : α → S → Prop) (E : Stop L ε → Prop) : Prop :=
  ∀ s, P s →
    match c held s with
    | .ok (a, s') => Q a s'
    | .error e => E e

namespace Triple

variable {L ε S α β : Type} {held : Held L} {P P' : S → Prop} {c : Locked L ε S α}
  {Q Q' : α → S → Prop} {E E' : Stop L ε → Prop}

theorem pure {a : α} (h : ∀ s, P s → Q a s) :
    Triple held P (Pure.pure a : Locked L ε S α) Q E := h

theorem bind {f : α → Locked L ε S β} {Q : β → S → Prop} (R : α → S → Prop)
    (hc : Triple held P c R E) (hf : ∀ a, Triple held (R a) (f a) Q E) :
    Triple held P (c >>= f) Q E := by
  intro s hs
  have hfirst := hc s hs
  show match (match c held s with
    | .ok (a, s) => f a held s
    | .error e => .error e) with
    | .ok (a, s') => Q a s'
    | .error e => E e
  split at hfirst
  · exact hf _ _ hfirst
  · exact hfirst

theorem get {Q : S → S → Prop} (h : ∀ s, P s → Q s s) :
    Triple held P (Locked.get : Locked L ε S S) Q E := h

theorem modify {f : S → S} {Q : Unit → S → Prop} (h : ∀ s, P s → Q () (f s)) :
    Triple held P (Locked.modify f : Locked L ε S Unit) Q E := h

theorem stop {reason : ε} (h : E (.other reason)) :
    Triple held P (Locked.stop reason : Locked L ε S α) Q E := fun _ _ => h

section

variable [DecidableEq L] {lock : L} {mode : Mode}

end

variable {body : β → Locked L ε S Unit} {xs : List β}

theorem each (h : ∀ x ∈ xs, Triple held P (body x) (fun _ => P) E) :
    Triple held P (Locked.each body xs) (fun _ => P) E := by
  induction xs with
  | nil => exact pure fun _ hs => hs
  | cons x xs ih =>
    exact bind (fun _ => P) (h x List.mem_cons_self) fun _ =>
      ih fun y hy => h y (List.mem_cons_of_mem _ hy)

end Triple

/-! ## Computations that end whatever they find -/

section

variable {L ε S α β : Type} {held : Held L} {E : Stop L ε → Prop}

/-- The computation ends from every state, or stops with `E`. -/
abbrev Ends (held : Held L) (c : Locked L ε S α) (E : Stop L ε → Prop) : Prop :=
  Triple held (fun _ => True) c (fun _ _ => True) E

variable {c : Locked L ε S α}

theorem Ends.bind {f : α → Locked L ε S β} (hc : Ends held c E) (hf : ∀ a, Ends held (f a) E) :
    Ends held (c >>= f) E :=
  Triple.bind (fun _ _ => True) hc hf

end

/-! ### One lock and its value -/

/-- A lock, the value in it, and the guards that are out. -/
structure RwLock (α : Type) where
  value : α
  readers : Nat
  writer : Bool
  deriving DecidableEq

namespace RwLock

variable {α β : Type}

/-- A lock that nobody holds. -/
def new (value : α) : RwLock α := { value, readers := 0, writer := false }

/-- One more reader, unless there is a writer. -/
def read (l : RwLock α) : Option (RwLock α) :=
  if l.writer then none else some { l with readers := l.readers + 1 }

/-- A writer, unless somebody holds the lock. -/
def write (l : RwLock α) : Option (RwLock α) :=
  if l.writer || l.readers > 0 then none else some { l with writer := true }

/-- At the end of a statement the guards go that it created. -/
def statement (body : RwLock α → Option (RwLock α)) (l : RwLock α) : Option (RwLock α) :=
  (body l).map fun l' => { l' with readers := l.readers, writer := l.writer }

/-- `lock.write().field op= …`: a statement that changes the value through one guard. -/
def update (f : α → α) : RwLock α → Option (RwLock α) :=
  statement fun l => do
    let l ← l.write
    return { l with value := f l.value }

/-- `lock.write().field = lock.read()…`: the right side is evaluated first, and its guard is
still there when the left side asks for its own. -/
def assign (get : α → β) (set : α → β → α) : RwLock α → Option (RwLock α) :=
  statement fun l => do
    let l ← l.read
    let new := get l.value
    let l ← l.write
    return { l with value := set l.value new }

private theorem write_of_read {l l' : RwLock α} (h : l.read = some l') : l'.write = none := by
  rw [read] at h
  split at h
  · cases h
  · cases h
    simp [write]

theorem assign_eq_none (get : α → β) (set : α → β → α) (l : RwLock α) :
    l.assign get set = none := by
  cases hread : l.read with
  | none => simp [assign, statement, hread]
  | some => simp [assign, statement, hread, write_of_read hread]

end RwLock

end Kaelix.Lib
