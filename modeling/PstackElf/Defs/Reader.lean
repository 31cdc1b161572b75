import Mathlib

/-! The byte-level capability the ELF core consumes: random access over a
finite run of bytes (`size`, `readObj`, `readString`, `view`, `ReaderArray`),
the fixed-width scalar types of the ELF64 format, and the ways a call can end
without returning a value: an exception the Reader or the code throws, or
undefined behaviour in the code itself. -/

namespace PstackElf

abbrev Byte := BitVec 8
abbrev Half := BitVec 16
abbrev Word := BitVec 32
abbrev Xword := BitVec 64
abbrev Sxword := BitVec 64
abbrev Off := BitVec 64
abbrev Addr := BitVec 64

abbrev Name := List Byte

/-- A `const char *`: a name with no NUL byte in it. -/
abbrev CStr := { s : Name // 0 ∉ s }

/-- The outcomes of a call other than a returned value. The first four are
exceptions the caller sees; the next three are undefined behaviour of the C++
code; `outOfFuel` stands for a loop that has not finished. -/
inductive Fault where
  | readError
  | notElf
  | lengthError
  | noSuchKey
  | outOfRange
  | divByZero
  | shiftTooWide
  | outOfFuel
  deriving DecidableEq, Repr

instance Except.decEq {ε α : Type} [DecidableEq ε] [DecidableEq α] : DecidableEq (Except ε α)
  | .ok a, .ok b => decidable_of_iff (a = b) ⟨congrArg _, fun h => by cases h; rfl⟩
  | .error a, .error b => decidable_of_iff (a = b) ⟨congrArg _, fun h => by cases h; rfl⟩
  | .ok _, .error _ => isFalse nofun
  | .error _, .ok _ => isFalse nofun

@[simp] theorem Except.ok_bind {α β : Type} (a : α) (f : α → Except Fault β) :
    (Except.ok a >>= f) = f a := rfl

@[simp] theorem Except.error_bind {α β : Type} (e : Fault) (f : α → Except Fault β) :
    (Except.error e >>= f) = Except.error e := rfl

theorem Except.bind_eq_ok {α β : Type} {x : Except Fault α} {f : α → Except Fault β} {b : β} :
    x >>= f = .ok b ↔ ∃ a, x = .ok a ∧ f a = .ok b := by
  cases x <;> simp

@[simp] theorem Except.map_ok {α β : Type} (f : α → β) (a : α) :
    (f <$> (Except.ok a : Except Fault α)) = Except.ok (f a) := rfl

theorem toNat_pos_of_ne {w : Nat} {x : BitVec w} (h : x ≠ 0) : 0 < x.toNat :=
  Nat.pos_of_ne_zero fun h0 => h (BitVec.eq_of_toNat_eq (by simpa using h0))

def decodeLE : List Byte → Nat
  | [] => 0
  | b :: bs => b.toNat + 256 * decodeLE bs

def field (w : Nat) (b : List Byte) (pos : Nat) : BitVec w :=
  BitVec.ofNat w (decodeLE ((b.drop pos).take (w / 8)))

def encodeLE (n v : Nat) : List Byte :=
  (List.range n).map fun k => BitVec.ofNat 8 (v / 256 ^ k)

def encodeWords (ws : List Word) : List Byte :=
  ws.flatMap fun w => encodeLE 4 w.toNat

theorem encodeLE_succ (n v : Nat) :
    encodeLE (n + 1) v = BitVec.ofNat 8 v :: encodeLE n (v / 256) := by
  simp only [encodeLE, List.range_succ_eq_map, List.map_cons, List.map_map, pow_zero, Nat.div_one]
  congr 1
  refine List.map_congr_left fun k _ => ?_
  simp only [Function.comp, pow_succ, Nat.div_div_eq_div_mul, Nat.mul_comm]

@[simp] theorem length_encodeLE (n v : Nat) : (encodeLE n v).length = n := by simp [encodeLE]

theorem decodeLE_encodeLE (n v : Nat) : decodeLE (encodeLE n v) = v % 256 ^ n := by
  induction n generalizing v with
  | zero => simp [encodeLE, decodeLE, Nat.mod_one]
  | succ n ih =>
    rw [encodeLE_succ, decodeLE, ih, BitVec.toNat_ofNat, pow_succ' 256 n, @Nat.mod_mul 256 (256 ^ n) v]

theorem encodeWords_append (ws vs : List Word) :
    encodeWords (ws ++ vs) = encodeWords ws ++ encodeWords vs := List.flatMap_append ..

@[simp] theorem length_encodeWords (ws : List Word) : (encodeWords ws).length = 4 * ws.length := by
  induction ws with
  | nil => rfl
  | cons w ws ih =>
    rw [encodeWords, List.flatMap_cons, List.length_append, length_encodeLE, ← encodeWords, ih,
      List.length_cons]
    omega

theorem encodeWords_split (ws : List Word) {k : Nat} (hk : k < ws.length) :
    encodeWords ws =
      encodeWords (ws.take k) ++ encodeLE 4 ws[k].toNat ++ encodeWords (ws.drop (k + 1)) := by
  conv_lhs => rw [← List.take_append_drop k ws, List.drop_eq_getElem_cons hk]
  rw [encodeWords_append, show ws[k] :: ws.drop (k + 1) = [ws[k]] ++ ws.drop (k + 1) from rfl,
    encodeWords_append, List.append_assoc]
  simp [encodeWords]

abbrev Reader := List Byte

namespace Reader

/-- `readObj` of an `n`-byte object at `off`: a short read raises. -/
def readBytes (r : Reader) (off n : Nat) : Except Fault (List Byte) :=
  if off + n ≤ r.length then .ok ((r.drop off).take n) else .error .readError

def readWord (r : Reader) (off : Nat) : Except Fault Word :=
  (field 32 · 0) <$> r.readBytes off 4

def readXword (r : Reader) (off : Nat) : Except Fault Xword :=
  (field 64 · 0) <$> r.readBytes off 8

def readString (r : Reader) (off : Nat) : Name :=
  (r.drop off).takeWhile (· != 0)

/-- `view(tag, off, len)`: the sub-range `[off, off + len)`, cut at the end. -/
def view (r : Reader) (off len : Nat) : Reader :=
  (r.drop off).take len

def array (n : Nat) (r : Reader) : List (List Byte) :=
  (List.range (r.length / n)).map fun i => (r.drop (i * n)).take n

@[simp] theorem readBytes_ok {r : Reader} {off n : Nat} {b : List Byte} :
    r.readBytes off n = .ok b ↔ off + n ≤ r.length ∧ (r.drop off).take n = b := by
  unfold readBytes; split <;> simp [*]

theorem readBytes_error {r : Reader} {off n : Nat} (h : r.length < off + n) :
    r.readBytes off n = .error .readError := by
  simp [readBytes, Nat.not_le.mpr h]

theorem readWord_error {r : Reader} {off : Nat} {e : Fault} (h : r.readWord off = .error e) :
    e = .readError := by
  unfold readWord readBytes at h
  split at h <;> simp_all [Functor.map, Except.map]

theorem readXword_error {r : Reader} {off : Nat} {e : Fault} (h : r.readXword off = .error e) :
    e = .readError := by
  unfold readXword readBytes at h
  split at h <;> simp_all [Functor.map, Except.map]

theorem readBytes_append (pre mid post : List Byte) :
    readBytes (pre ++ mid ++ post) pre.length mid.length = .ok mid := by
  simp [readBytes_ok, List.drop_append_eq_append_drop, List.take_append_eq_append_take]

theorem readWord_append (pre post : List Byte) (w : Word) :
    readWord (pre ++ encodeLE 4 w.toNat ++ post) pre.length = .ok w := by
  have := readBytes_append pre (encodeLE 4 w.toNat) post
  rw [length_encodeLE] at this
  rw [readWord, this, Except.map_ok, field, List.drop_zero, List.take_of_length_le (by simp),
    decodeLE_encodeLE]
  congr 1
  apply BitVec.eq_of_toNat_eq
  simpa using w.isLt

theorem readXword_append (pre post : List Byte) (v : Nat) :
    readXword (pre ++ encodeLE 8 v ++ post) pre.length = .ok (BitVec.ofNat 64 v) := by
  have := readBytes_append pre (encodeLE 8 v) post
  rw [length_encodeLE] at this
  rw [readXword, this, Except.map_ok, field, List.drop_zero, List.take_of_length_le (by simp),
    decodeLE_encodeLE]
  congr 1
  apply BitVec.eq_of_toNat_eq
  simp

theorem readWord_encodeWords (pre post : List Byte) (ws : List Word) {k : Nat} (hk : k < ws.length) :
    readWord (pre ++ encodeWords ws ++ post) (pre.length + 4 * k) = .ok ws[k] := by
  rw [encodeWords_split ws hk, ← List.append_assoc, ← List.append_assoc, List.append_assoc _ _ post]
  have := readWord_append (pre ++ encodeWords (ws.take k)) (encodeWords (ws.drop (k + 1)) ++ post) ws[k]
  simpa [List.length_take, Nat.min_eq_left hk.le, List.append_assoc] using this

@[simp] theorem length_view (r : Reader) (off len : Nat) :
    (r.view off len).length = min len (r.length - off) := by
  simp [view]

end Reader

end PstackElf
