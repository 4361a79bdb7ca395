import Mathlib.Algebra.Group.Nat.Defs
import Mathlib.Data.List.TakeWhile
import Mathlib.Logic.Basic
import Mathlib.Tactic.Common

/-!
# Byte strings, fixed fields and bounds-checked reads

* `Buf n`: the `n` bytes of a fixed array field. `Buf.store` copies a byte string
  to its start and leaves the bytes behind it, as `memcpy` does.
* `readAt`, `readU8`, `readU16`, `readU32`, `readStr`: reads of a received byte
  string. A read that leaves the string is an error (`OutOfRange`), never a value.
* `leBytes`, `ofLe`: little-endian integers.

`readAt_append` reads a field back out of a concatenation of fields.
-/

namespace Octets

abbrev Bytes := List UInt8

/-- A read of `len` bytes at `off` that leaves a string of `size` bytes. -/
structure OutOfRange where
  off : Nat
  len : Nat
  size : Nat
deriving DecidableEq

@[simp] theorem ok_bind {ε α β : Type} (a : α) (f : α → Except ε β) :
    (Except.ok a >>= f) = f a := rfl

@[simp] theorem error_bind {ε α β : Type} (e : ε) (f : α → Except ε β) :
    (Except.error e >>= f) = Except.error e := rfl

theorem bind_eq_ok {ε α β : Type} {x : Except ε α} {f : α → Except ε β} {b : β} :
    (x >>= f) = .ok b ↔ ∃ a, x = .ok a ∧ f a = .ok b := by
  cases x <;> simp

/-! ## Fixed array fields -/

structure Buf (n : Nat) where
  bytes : Bytes
  length_eq : bytes.length = n
deriving DecidableEq

namespace Buf

variable {n : Nat}

/-- The field as `calloc` or `memset 0` leaves it. -/
def zero (n : Nat) : Buf n := ⟨List.replicate n 0, List.length_replicate⟩

/-- Copy `src` to the start of the field. Bytes of `src` that do not fit are
dropped: the field never holds more than its `n` bytes. -/
def store (b : Buf n) (src : Bytes) : Buf n :=
  ⟨(src ++ b.bytes.drop src.length).take n, by
    have := b.length_eq
    simp only [List.length_take, List.length_append, List.length_drop]
    omega⟩

/-- The first `k` bytes of the field. -/
def first (b : Buf n) (k : Nat) : Bytes := b.bytes.take k

theorem length_first {b : Buf n} {k : Nat} (hk : k ≤ n) : (b.first k).length = k := by
  simp [first, b.length_eq, hk]

theorem first_store {b : Buf n} {src : Bytes} {k : Nat} (hk : k ≤ src.length) (hn : k ≤ n) :
    (b.store src).first k = src.take k := by
  simp only [first, store, List.take_take, Nat.min_eq_left hn]
  exact List.take_append_of_le_length hk

theorem bytes_store {b : Buf n} {src : Bytes} (h : src.length = n) : (b.store src).bytes = src := by
  have hd : b.bytes.drop src.length = [] :=
    List.drop_eq_nil_of_le (Nat.le_of_eq (b.length_eq.trans h.symm))
  simp only [store, hd, List.append_nil]
  exact List.take_of_length_le (Nat.le_of_eq h)

theorem ext_bytes {a b : Buf n} (h : a.bytes = b.bytes) : a = b := by
  cases a; cases b
  simp_all

end Buf

/-- The C string at the start of a byte string: everything before its NUL. -/
def cString (bs : Bytes) : Bytes := bs.takeWhile (· ≠ 0)

theorem cString_eq_self {bs : Bytes} : cString bs = bs ↔ 0 ∉ bs := by
  rw [cString, List.takeWhile_eq_self_iff]
  simp only [decide_eq_true_eq]
  exact ⟨fun h h0 => h 0 h0 rfl, fun h b hb hb0 => h (hb0 ▸ hb)⟩

/-! ## Little-endian integers -/

/-- The low `k` bytes of `n`, lowest first. -/
def leBytes : Nat → Nat → Bytes
  | 0, _ => []
  | k + 1, n => UInt8.ofNat n :: leBytes k (n / 256)

def ofLe : Bytes → Nat
  | [] => 0
  | b :: bs => b.toNat + 256 * ofLe bs

@[simp] theorem length_leBytes (k n : Nat) : (leBytes k n).length = k := by
  induction k generalizing n with
  | zero => rfl
  | succ k ih => simp [leBytes, ih]

theorem ofLe_leBytes (k n : Nat) : ofLe (leBytes k n) = n % 256 ^ k := by
  induction k generalizing n with
  | zero => simp [leBytes, ofLe, Nat.mod_one]
  | succ k ih =>
    have hb : (UInt8.ofNat n).toNat = n % 256 := by simp
    rw [leBytes, ofLe, ih, hb, Nat.pow_succ, Nat.mul_comm (256 ^ k) 256, Nat.mod_mul]

theorem ofLe_u16 (x : UInt16) : UInt16.ofNat (ofLe (leBytes 2 x.toNat)) = x := by
  rw [ofLe_leBytes, Nat.mod_eq_of_lt (by simpa using x.toNat_lt)]
  exact UInt16.ofNat_toNat

theorem ofLe_u32 (x : UInt32) : UInt32.ofNat (ofLe (leBytes 4 x.toNat)) = x := by
  rw [ofLe_leBytes, Nat.mod_eq_of_lt (by simpa using x.toNat_lt)]
  exact UInt32.ofNat_toNat

/-! ## Reads -/

/-- Read `len` bytes at `off`. -/
def readAt (data : Bytes) (off len : Nat) : Except OutOfRange Bytes :=
  if off + len ≤ data.length then .ok ((data.drop off).take len)
  else .error ⟨off, len, data.length⟩

def readU8 (data : Bytes) (off : Nat) : Except OutOfRange UInt8 :=
  match data[off]? with
  | some b => .ok b
  | none => .error ⟨off, 1, data.length⟩

def readU16 (data : Bytes) (off : Nat) : Except OutOfRange UInt16 := do
  let bs ← readAt data off 2
  return UInt16.ofNat (ofLe bs)

def readU32 (data : Bytes) (off : Nat) : Except OutOfRange UInt32 := do
  let bs ← readAt data off 4
  return UInt32.ofNat (ofLe bs)

/-- Read an array field of `n` bytes. -/
def readBuf (data : Bytes) (off n : Nat) : Except OutOfRange (Buf n) := do
  let bs ← readAt data off n
  return (Buf.zero n).store bs

/-- Read at most `n` characters, up to a NUL: what `printf("%.*s", n, p)` reads. -/
def readStr (data : Bytes) (off : Nat) : Nat → Except OutOfRange Bytes
  | 0 => .ok []
  | n + 1 => do
    let b ← readU8 data off
    if b = 0 then return []
    let rest ← readStr data (off + 1) n
    return b :: rest

section Reads

variable {data : Bytes} {off len : Nat}

theorem readAt_of_le (h : off + len ≤ data.length) :
    readAt data off len = .ok ((data.drop off).take len) := if_pos h

theorem length_of_readAt {v : Bytes} (h : readAt data off len = .ok v) : v.length = len := by
  by_cases hle : off + len ≤ data.length
  · rw [readAt_of_le hle] at h
    cases h
    simp only [List.length_take, List.length_drop]
    omega
  · simp [readAt, hle] at h

theorem readU8_of_lt (h : off < data.length) : readU8 data off = .ok data[off] := by
  simp [readU8, List.getElem?_eq_getElem h]

theorem readU8_isOk_iff : (∃ v, readU8 data off = .ok v) ↔ off < data.length := by
  by_cases h : off < data.length
  · simp [readU8_of_lt h, h]
  · simp [readU8, h]

theorem readU8_eq_ok {b : UInt8} : readU8 data off = .ok b ↔ b ∈ data[off]? := by
  unfold readU8
  split <;> simp_all

theorem readU16_isOk (h : off + 2 ≤ data.length) : ∃ v, readU16 data off = .ok v := by
  simp [readU16, readAt_of_le h, pure, Except.pure]

theorem readU32_isOk (h : off + 4 ≤ data.length) : ∃ v, readU32 data off = .ok v := by
  simp [readU32, readAt_of_le h, pure, Except.pure]

theorem readBuf_isOk {n : Nat} (h : off + n ≤ data.length) : ∃ v, readBuf data off n = .ok v := by
  simp [readBuf, readAt_of_le h, pure, Except.pure]

/-- A string is read up to its NUL or its end. -/
theorem readStr_isOk_iff : ∀ (n off : Nat), (∃ v, readStr data off n = .ok v) ↔
    n ≤ (data.drop off).length ∨ 0 ∈ data.drop off
  | 0, _ => ⟨fun _ => .inl (Nat.zero_le _), fun _ => ⟨[], rfl⟩⟩
  | n + 1, off => by
    have ih := readStr_isOk_iff n (off + 1)
    rw [← List.drop_drop] at ih
    rw [readStr]
    cases hd : data.drop off with
    | nil =>
      have hnone : data[off]? = none := by rw [← List.head?_drop, hd, List.head?_nil]
      simp [readU8, hnone]
    | cons b rest =>
      have hsome : data[off]? = some b := by rw [← List.head?_drop, hd, List.head?_cons]
      rw [hd, List.drop_one, List.tail_cons] at ih
      rw [readU8_eq_ok.mpr hsome, ok_bind]
      split
      · next h0 => simp [h0, pure, Except.pure]
      · next h0 => simp [bind_eq_ok, ih, Ne.symm h0, pure, Except.pure]

theorem readStr_isOk (n off : Nat) (h : off + n ≤ data.length) :
    ∃ v, readStr data off n = .ok v := by
  refine (readStr_isOk_iff n off).mpr (.inl ?_)
  rw [List.length_drop]
  omega

/-- A field is read back from the concatenation of the fields. -/
theorem readAt_append {pre field post : Bytes} (ho : pre.length = off) (hl : field.length = len) :
    readAt (pre ++ (field ++ post)) off len = .ok field := by
  subst ho hl
  rw [readAt_of_le (by simp only [List.length_append]; omega), List.drop_left, List.take_left]

theorem readU8_append {pre post : Bytes} {b : UInt8} (ho : pre.length = off) :
    readU8 (pre ++ (b :: post)) off = .ok b := by
  subst ho
  simp [readU8]

theorem readU16_append {pre post : Bytes} {x : UInt16} (ho : pre.length = off) :
    readU16 (pre ++ (leBytes 2 x.toNat ++ post)) off = .ok x := by
  rw [readU16, readAt_append ho (by simp), ok_bind, ofLe_u16]
  rfl

theorem readU32_append {pre post : Bytes} {x : UInt32} (ho : pre.length = off) :
    readU32 (pre ++ (leBytes 4 x.toNat ++ post)) off = .ok x := by
  rw [readU32, readAt_append ho (by simp), ok_bind, ofLe_u32]
  rfl

/-- A string without a NUL is read up to its length. -/
theorem readStr_append {pre str post : Bytes} (ho : pre.length = off) (hs : 0 ∉ str) :
    readStr (pre ++ (str ++ post)) off str.length = .ok str := by
  induction str generalizing pre off with
  | nil => rfl
  | cons b str ih =>
    obtain ⟨hb, hstr⟩ := not_or.mp (mt List.mem_cons.mpr hs)
    have hrest : readStr ((pre ++ [b]) ++ (str ++ post)) (off + 1) str.length = .ok str :=
      ih (by simp [ho]) hstr
    rw [List.append_assoc, List.singleton_append] at hrest
    rw [List.length_cons, readStr, List.cons_append, readU8_append ho, ok_bind,
      if_neg (Ne.symm hb), hrest]
    rfl

end Reads

end Octets
