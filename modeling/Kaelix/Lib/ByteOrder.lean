import Mathlib.Algebra.GroupWithZero.Nat
import Mathlib.Data.List.Induction

/-!
# Machine words in buffers

`toBytes k n` is the number `n` in `k` bytes, most significant byte first, and `ofBytes` reads
such a string back.  A `Word` is read where it was written, and writing what was read gives the
string back, in this order of the bytes and in the other one.

Some operations on a buffer stop the program when they reach past its end; in `Access` they are
partial functions, each with a lemma that says what it gives inside the buffer.
-/

namespace Kaelix.Lib.BigEndian

/-- The lowest `k` bytes of `n`, most significant first. -/
def toBytes : Nat → Nat → List UInt8
  | 0, _ => []
  | k + 1, n => toBytes k (n / 256) ++ [UInt8.ofNat n]

section

variable (bs : List UInt8)

/-- The number with these bytes, the highest first. -/
def ofBytes : Nat := bs.foldl (fun n b => n * 256 + b.toNat) 0

@[simp] theorem length_toBytes (k n : Nat) : (toBytes k n).length = k := by
  induction k generalizing n with
  | zero => rfl
  | succ k ih => simp [toBytes, ih]

theorem ofBytes_concat (b : UInt8) : ofBytes (bs ++ [b]) = ofBytes bs * 256 + b.toNat := by
  simp [ofBytes]

theorem ofBytes_toBytes (k : Nat) : ∀ n, n < 256 ^ k → ofBytes (toBytes k n) = n := by
  induction k with
  | zero =>
    intro n hn
    have : n = 0 := by simpa using hn
    rw [this]
    rfl
  | succ k ih =>
    intro n hn
    have hdiv : n / 256 < 256 ^ k := by
      rw [Nat.pow_succ] at hn
      exact Nat.div_lt_of_lt_mul (by rwa [Nat.mul_comm])
    have hlow : (UInt8.ofNat n).toNat = n % 256 := UInt8.toNat_ofNat'
    rw [toBytes, ofBytes_concat, ih _ hdiv, hlow]
    omega

theorem ofBytes_lt : ofBytes bs < 256 ^ bs.length := by
  induction bs using List.reverseRecOn with
  | nil => decide
  | append_singleton bs b ih =>
    have hb := b.toNat_lt
    rw [ofBytes_concat, List.length_append, List.length_singleton, Nat.pow_succ]
    omega

theorem toBytes_ofBytes : toBytes bs.length (ofBytes bs) = bs := by
  induction bs using List.reverseRecOn with
  | nil => rfl
  | append_singleton bs b ih =>
    have hb := b.toNat_lt
    have hdiv : (ofBytes bs * 256 + b.toNat) / 256 = ofBytes bs := by omega
    have hlow : UInt8.ofNat (ofBytes bs * 256 + b.toNat) = b := by
      apply UInt8.toNat_inj.mp
      rw [UInt8.toNat_ofNat']
      omega
    rw [List.length_append, List.length_singleton, ofBytes_concat, toBytes, hdiv, hlow, ih]

end

/-- A machine word with its width in bytes. -/
structure Word (α : Type) where
  bytes : Nat
  toNat : α → Nat
  ofNat : Nat → α
  toNat_lt : ∀ a, toNat a < 256 ^ bytes
  ofNat_toNat : ∀ a, ofNat (toNat a) = a
  toNat_ofNat : ∀ n, n < 256 ^ bytes → toNat (ofNat n) = n

namespace Word

variable {α : Type} (w : Word α)

/-- The bytes of a word, the highest first. -/
def put (a : α) : List UInt8 := toBytes w.bytes (w.toNat a)

/-- A word at the front, and what follows it. -/
def get (buf : List UInt8) : α × List UInt8 :=
  (w.ofNat (ofBytes (buf.take w.bytes)), buf.drop w.bytes)

@[simp] theorem length_put (a : α) : (w.put a).length = w.bytes := length_toBytes _ _

@[simp] theorem get_put_append (a : α) (rest : List UInt8) :
    w.get (w.put a ++ rest) = (a, rest) := by
  have htake : (w.put a ++ rest).take w.bytes = w.put a := List.take_left' (w.length_put a)
  have hdrop : (w.put a ++ rest).drop w.bytes = rest := List.drop_left' (w.length_put a)
  rw [get, htake, hdrop, put, ofBytes_toBytes _ _ (w.toNat_lt a), w.ofNat_toNat]

theorem put_get {buf : List UInt8} (h : w.bytes ≤ buf.length) :
    w.put (w.get buf).1 ++ (w.get buf).2 = buf := by
  have hlen : (buf.take w.bytes).length = w.bytes := List.length_take_of_le h
  have hlt := ofBytes_lt (buf.take w.bytes)
  have hbytes := toBytes_ofBytes (buf.take w.bytes)
  rw [hlen] at hlt hbytes
  rw [get, put, w.toNat_ofNat _ hlt, hbytes, List.take_append_drop]

variable (offset : Nat)

variable (data : List UInt8)

/-- The word at an offset. -/
def read : α := (w.get (data.drop offset)).1

theorem get_drop :
    w.get (data.drop offset) = (w.read offset data, data.drop (offset + w.bytes)) := by
  rw [read, get, List.drop_drop]

theorem read_put (before : List UInt8) (a : α) (rest : List UInt8) :
    w.read before.length (before ++ (w.put a ++ rest)) = a := by
  rw [read, List.drop_left, get_put_append]

theorem read_append {data : List UInt8} (more : List UInt8) (h : offset + w.bytes ≤ data.length) :
    w.read offset (data ++ more) = w.read offset data := by
  have hdrop : (data ++ more).drop offset = data.drop offset ++ more :=
    List.drop_append_of_le_length (by omega)
  have htake : (data.drop offset ++ more).take w.bytes = (data.drop offset).take w.bytes :=
    List.take_append_of_le_length (by rw [List.length_drop]; omega)
  rw [read, read, get, get, hdrop, htake]

theorem read_take {data : List UInt8} {n : Nat} (hn : n ≤ data.length)
    (h : offset + w.bytes ≤ n) : w.read offset (data.take n) = w.read offset data := by
  have hlen : offset + w.bytes ≤ (data.take n).length := by rwa [List.length_take_of_le hn]
  have hread := w.read_append offset (data.drop n) hlen
  rw [List.take_append_drop] at hread
  exact hread.symm

theorem put_read (h : offset + w.bytes ≤ data.length) :
    w.put (w.read offset data) ++ data.drop (offset + w.bytes) = data.drop offset := by
  have hlen : w.bytes ≤ (data.drop offset).length := by
    rw [List.length_drop]
    omega
  have hput := w.put_get hlen
  rwa [get_drop] at hput

end Word

def u8 : Word UInt8 where
  bytes := 1
  toNat := UInt8.toNat
  ofNat := UInt8.ofNat
  toNat_lt a := a.toNat_lt
  ofNat_toNat _ := UInt8.ofNat_toNat
  toNat_ofNat _ h := UInt8.toNat_ofNat_of_lt h

def u16 : Word UInt16 where
  bytes := 2
  toNat := UInt16.toNat
  ofNat := UInt16.ofNat
  toNat_lt a := a.toNat_lt
  ofNat_toNat _ := UInt16.ofNat_toNat
  toNat_ofNat _ h := UInt16.toNat_ofNat_of_lt h

def u32 : Word UInt32 where
  bytes := 4
  toNat := UInt32.toNat
  ofNat := UInt32.ofNat
  toNat_lt a := a.toNat_lt
  ofNat_toNat _ := UInt32.ofNat_toNat
  toNat_ofNat _ h := UInt32.toNat_ofNat_of_lt h

def u64 : Word UInt64 where
  bytes := 8
  toNat := UInt64.toNat
  ofNat := UInt64.ofNat
  toNat_lt a := a.toNat_lt
  ofNat_toNat _ := UInt64.ofNat_toNat
  toNat_ofNat _ h := UInt64.toNat_ofNat_of_lt h

@[simp] theorem u8_bytes : u8.bytes = 1 := rfl

@[simp] theorem u16_bytes : u16.bytes = 2 := rfl

@[simp] theorem u32_bytes : u32.bytes = 4 := rfl

@[simp] theorem u64_bytes : u64.bytes = 8 := rfl

/-! ### The other order of bytes -/

namespace Word

variable {α : Type} (w : Word α)

/-- The bytes of a word, the lowest first. -/
def putLe (a : α) : List UInt8 := (w.put a).reverse

/-- A word at the front, lowest byte first. -/
def getLe (buf : List UInt8) : α := w.ofNat (ofBytes (buf.take w.bytes).reverse)

/-- The word at an offset, lowest byte first. -/
def readLe (offset : Nat) (data : List UInt8) : α := w.getLe (data.drop offset)

@[simp] theorem length_putLe (a : α) : (w.putLe a).length = w.bytes := by
  rw [putLe, List.length_reverse, length_put]

@[simp] theorem getLe_putLe_append (a : α) (rest : List UInt8) :
    w.getLe (w.putLe a ++ rest) = a := by
  have htake : (w.putLe a ++ rest).take w.bytes = w.putLe a := List.take_left' (w.length_putLe a)
  rw [getLe, htake, putLe, List.reverse_reverse, put, ofBytes_toBytes _ _ (w.toNat_lt a),
    w.ofNat_toNat]

theorem readLe_putLe {offset : Nat} (before : List UInt8) (h : before.length = offset)
    (a : α) (rest : List UInt8) : w.readLe offset (before ++ (w.putLe a ++ rest)) = a := by
  rw [readLe, List.drop_left' h, getLe_putLe_append]

@[simp] theorem readLe_zero (a : α) (rest : List UInt8) : w.readLe 0 (w.putLe a ++ rest) = a :=
  w.readLe_putLe [] rfl a rest

theorem readLe_skip {β : Type} (w' : Word β) (b : β) {offset : Nat}
    (h : w'.bytes ≤ offset) (rest : List UInt8) :
    w.readLe offset (w'.putLe b ++ rest) = w.readLe (offset - w'.bytes) rest := by
  have hdrop : (w'.putLe b).drop offset = [] :=
    List.drop_eq_nil_of_le (by rw [length_putLe]; exact h)
  rw [readLe, readLe, List.drop_append, hdrop, List.nil_append, length_putLe]

end Word

private theorem toBytes_add (j k n : Nat) :
    toBytes (j + k) n = toBytes j (n / 256 ^ k) ++ toBytes k n := by
  induction k generalizing n with
  | zero => simp [toBytes]
  | succ k ih =>
    have hdiv : n / 256 / 256 ^ k = n / 256 ^ (k + 1) := by
      rw [Nat.div_div_eq_div_mul, Nat.pow_succ, Nat.mul_comm]
    rw [← Nat.add_assoc, toBytes, ih, hdiv, toBytes, List.append_assoc]

theorem u32_readLe_u64_high (a : UInt64) (rest : List UInt8) :
    u32.readLe 4 (u64.putLe a ++ rest) = .ofNat (a.toNat / 2 ^ 32) := by
  have hlt : a.toNat / 2 ^ 32 < 2 ^ 32 := by
    have := a.toNat_lt
    omega
  have hbytes : u64.putLe a =
      (toBytes 4 a.toNat).reverse ++ u32.putLe (.ofNat (a.toNat / 2 ^ 32)) := by
    have hhigh : u32.put (.ofNat (a.toNat / 2 ^ 32)) = toBytes 4 (a.toNat / 2 ^ 32) :=
      congrArg (toBytes 4) (UInt32.toNat_ofNat_of_lt hlt)
    rw [Word.putLe, Word.putLe, hhigh, ← List.reverse_append]
    exact congrArg List.reverse (toBytes_add 4 4 a.toNat)
  rw [hbytes, List.append_assoc]
  exact u32.readLe_putLe _ (by simp) _ rest

end Kaelix.Lib.BigEndian

/-! ### Access within bounds -/

namespace Kaelix.Lib.Access

variable {α : Type} {buf : List α}

/-- The first bytes and the others, if there are enough. -/
def splitTo (n : Nat) (buf : List α) : Option (List α × List α) :=
  if n ≤ buf.length then some (buf.take n, buf.drop n) else none

/-- What follows the first bytes. -/
def advance (n : Nat) (buf : List α) : Option (List α) :=
  if n ≤ buf.length then some (buf.drop n) else none

/-- The bytes from `start` to before `stop`. -/
def slice (start stop : Nat) (buf : List α) : Option (List α) :=
  if start ≤ stop ∧ stop ≤ buf.length then some ((buf.drop start).take (stop - start))
  else none

/-- The byte at a position. -/
def index (i : Nat) (buf : List α) : Option α := buf[i]?

theorem splitTo_of_le {n : Nat} (h : n ≤ buf.length) :
    splitTo n buf = some (buf.take n, buf.drop n) := if_pos h

theorem advance_of_le {n : Nat} (h : n ≤ buf.length) : advance n buf = some (buf.drop n) :=
  if_pos h

theorem slice_of_le {start stop : Nat} (h : start ≤ stop) (h' : stop ≤ buf.length) :
    slice start stop buf = some ((buf.drop start).take (stop - start)) := if_pos ⟨h, h'⟩

private theorem index_of_lt {i : Nat} (h : i < buf.length) : index i buf = some buf[i] :=
  List.getElem?_eq_getElem h

theorem index_four {i : Nat} {buf : List UInt8} (h : i + 4 ≤ buf.length) :
    ∃ a b c d, index i buf = some a ∧ index (i + 1) buf = some b ∧
      index (i + 2) buf = some c ∧ index (i + 3) buf = some d ∧
      (buf.drop i).take 4 = [a, b, c, d] := by
  refine ⟨_, _, _, _, index_of_lt (by omega), index_of_lt (by omega),
    index_of_lt (by omega), index_of_lt (by omega), ?_⟩
  rw [List.drop_eq_getElem_cons (by omega), List.drop_eq_getElem_cons (by omega),
    List.drop_eq_getElem_cons (by omega), List.drop_eq_getElem_cons (by omega)]
  rfl

end Kaelix.Lib.Access

namespace Kaelix.Lib.BigEndian.Word

variable {α : Type} (w : Word α)

/-- A word and the rest, if there are enough bytes. -/
def take (buf : List UInt8) : Option (α × List UInt8) :=
  (Access.splitTo w.bytes buf).map fun (word, rest) => (w.ofNat (ofBytes word), rest)

theorem take_drop (offset : Nat) {data : List UInt8} (h : offset + w.bytes ≤ data.length) :
    w.take (data.drop offset) = some (w.read offset data, data.drop (offset + w.bytes)) := by
  rw [take, Access.splitTo_of_le (by rw [List.length_drop]; omega), List.drop_drop]
  rfl

end Kaelix.Lib.BigEndian.Word
