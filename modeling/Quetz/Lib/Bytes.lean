import Mathlib.Algebra.Order.Ring.Nat
import Mathlib.Tactic.Ring

/-!
# Byte Strings

The number a byte string denotes, and the bytes of a number, with the least or the most
significant byte first. Code that packs and unpacks integers byte by byte is specified against
them.

## Main results

* `leNat_concat`: one more byte at the significant end.
* `leNat_lt`: a byte string of length `n` denotes a number below `256 ^ n`.
* `ByteOrder.value_slice`: a part of the bytes of a number denotes some of its digits.
-/

namespace Bytes

/-- The number a byte string denotes, least significant byte first. -/
def leNat : List UInt8 → ℕ
  | [] => 0
  | b :: bs => b.toNat + 256 * leNat bs

/-- The number of `n` bytes is below `256 ^ n`. -/
theorem leNat_lt : ∀ bs : List UInt8, leNat bs < 256 ^ bs.length
  | [] => by simp [leNat]
  | b :: bs => by
    have ih := leNat_lt bs
    have hb : b.toNat < 256 := b.toNat_lt
    rw [leNat, List.length_cons, Nat.pow_succ]
    omega

/-- One more byte at the significant end. -/
theorem leNat_concat : ∀ (bs : List UInt8) (b : UInt8),
    leNat (bs ++ [b]) = leNat bs + 256 ^ bs.length * b.toNat
  | [], b => by simp [leNat]
  | c :: bs, b => by
    rw [List.cons_append, leNat, leNat, leNat_concat bs b, List.length_cons, Nat.pow_succ]
    ring

/-! ### The bytes of a number -/

/-- The low `n` bytes of a number, least significant byte first. -/
def leBytes : ℕ → ℕ → List UInt8
  | 0, _ => []
  | n + 1, x => .ofNat x :: leBytes n (x / 256)

/-- The bytes asked for. -/
@[simp] theorem length_leBytes (n x : ℕ) : (leBytes n x).length = n := by
  induction n generalizing x with
  | zero => rfl
  | succ n ih => rw [leBytes, List.length_cons, ih]

/-- Byte `i` has the weight `256 ^ i`. -/
theorem getElem_leBytes {n x i : ℕ} (h : i < (leBytes n x).length) :
    (leBytes n x)[i] = .ofNat (x / 256 ^ i) := by
  induction i generalizing n x with
  | zero =>
      obtain ⟨n, rfl⟩ : ∃ m, n = m + 1 := ⟨n - 1, by rw [length_leBytes] at h; omega⟩
      simp [leBytes]
  | succ i ih =>
      obtain ⟨n, rfl⟩ : ∃ m, n = m + 1 := ⟨n - 1, by rw [length_leBytes] at h; omega⟩
      simp only [leBytes, List.getElem_cons_succ, ih, Nat.div_div_eq_div_mul, ← Nat.pow_succ']

/-- The bytes of a number denote it, up to their number. -/
theorem leNat_leBytes (n x : ℕ) : leNat (leBytes n x) = x % 256 ^ n := by
  induction n generalizing x with
  | zero => rw [leBytes, leNat, pow_zero, Nat.mod_one]
  | succ n ih =>
      have hbyte : (UInt8.ofNat x).toNat = x % 256 := UInt8.toNat_ofNat'
      rw [leBytes, leNat, ih, hbyte, Nat.pow_succ, Nat.mul_comm (256 ^ n), Nat.mod_mul]

/-- A byte string is the bytes of the number it denotes. -/
theorem leBytes_leNat (bs : List UInt8) : leBytes bs.length (leNat bs) = bs := by
  induction bs with
  | nil => rfl
  | cons b bs ih =>
      have hb : b.toNat < 256 := b.toNat_lt
      rw [List.length_cons, leBytes, leNat, Nat.add_mul_div_left _ _ (by decide),
        Nat.div_eq_of_lt hb, Nat.zero_add, ih]
      congr 1
      refine UInt8.toNat_inj.mp ?_
      rw [UInt8.toNat_ofNat', Nat.add_mul_mod_self_left, Nat.mod_eq_of_lt hb]

/-- Without the low bytes the number is shifted. -/
theorem drop_leBytes (i n x : ℕ) : (leBytes n x).drop i = leBytes (n - i) (x / 256 ^ i) := by
  induction i generalizing n x with
  | zero => rw [List.drop_zero, Nat.sub_zero, pow_zero, Nat.div_one]
  | succ i ih =>
      cases n with
      | zero => rw [leBytes, List.drop_nil, Nat.zero_sub, leBytes]
      | succ n =>
          rw [leBytes, List.drop_succ_cons, ih, Nat.add_sub_add_right, Nat.div_div_eq_div_mul,
            ← Nat.pow_succ']

/-- The low bytes of a number. -/
theorem take_leBytes (k n x : ℕ) : (leBytes n x).take k = leBytes (min k n) x := by
  induction k generalizing n x with
  | zero => rw [List.take_zero, Nat.zero_min, leBytes]
  | succ k ih =>
      cases n with
      | zero => rw [leBytes, List.take_nil, Nat.min_zero, leBytes]
      | succ n => rw [leBytes, List.take_succ_cons, ih, Nat.succ_min_succ, leBytes]

/-- The bytes from one position to another denote the digits between them. -/
theorem leNat_slice_leBytes {i k n : ℕ} (h : i + k ≤ n) (x : ℕ) :
    leNat (((leBytes n x).drop i).take k) = x / 256 ^ i % 256 ^ k := by
  rw [drop_leBytes, take_leBytes, leNat_leBytes, Nat.min_eq_left (by omega)]

/-! ### Byte orders -/

/-- Which byte of a number comes first. -/
inductive ByteOrder where
  | little | big
deriving DecidableEq, Repr

namespace ByteOrder

/-- The number a byte string denotes. -/
def value : ByteOrder → List UInt8 → ℕ
  | little, bs => leNat bs
  | big, bs => leNat bs.reverse

/-- The low `n` bytes of a number. -/
def bytes : ByteOrder → ℕ → ℕ → List UInt8
  | little, n, x => leBytes n x
  | big, n, x => (leBytes n x).reverse

/-- The digit that stands last in significance in the part of `k` bytes at position `i`. -/
def digit : ByteOrder → ℕ → ℕ → ℕ → ℕ
  | little, _, i, _ => i
  | big, n, i, k => n - (i + k)

/-- The order does not change the length. -/
@[simp] theorem length_bytes (o : ByteOrder) (n x : ℕ) : (o.bytes n x).length = n := by
  cases o with
  | little => exact length_leBytes n x
  | big => rw [bytes, List.length_reverse, length_leBytes]

/-- The byte at a position, by its digit. -/
theorem getElem_bytes (o : ByteOrder) {n x i : ℕ} (h : i < (o.bytes n x).length) :
    (o.bytes n x)[i] = .ofNat (x / 256 ^ o.digit n i 1) := by
  have hi : i < n := by rwa [length_bytes] at h
  cases o with
  | little => exact getElem_leBytes _
  | big =>
      simp only [bytes, digit, List.getElem_reverse, length_leBytes, getElem_leBytes]
      rw [Nat.sub_sub, Nat.add_comm 1 i]

/-- A part of the bytes of a number denotes the digits that its order gives it. -/
theorem value_slice (o : ByteOrder) {i k n : ℕ} (h : i + k ≤ n) (x : ℕ) :
    o.value (((o.bytes n x).drop i).take k) = x / 256 ^ o.digit n i k % 256 ^ k := by
  cases o with
  | little => exact leNat_slice_leBytes h x
  | big =>
      have hlen : (leBytes n x).length = n := length_leBytes n x
      have hslice : ((((leBytes n x).reverse).drop i).take k).reverse =
          ((leBytes n x).drop (n - (i + k))).take k := by
        have hback : n - i - (n - (i + k)) = k := by omega
        rw [List.drop_reverse, List.take_reverse, List.reverse_reverse, List.length_take, hlen,
          Nat.min_eq_left (Nat.sub_le n i), Nat.sub_sub, List.drop_take, hback]
      rw [value, bytes, digit, hslice, leNat_slice_leBytes (by omega)]

/-- The orders agree on one byte. -/
theorem bytes_one (o o' : ByteOrder) (x : ℕ) : o.bytes 1 x = o'.bytes 1 x := by
  cases o <;> cases o' <;> rfl

/-- A number is made of its bytes. -/
theorem value_bytes (o : ByteOrder) (n x : ℕ) : o.value (o.bytes n x) = x % 256 ^ n := by
  cases o with
  | little => exact leNat_leBytes n x
  | big => rw [value, bytes, List.reverse_reverse, leNat_leBytes]

/-- A byte string is the bytes of the number it denotes. -/
theorem bytes_value (o : ByteOrder) (bs : List UInt8) : o.bytes bs.length (o.value bs) = bs := by
  cases o with
  | little => exact leBytes_leNat bs
  | big =>
      rw [value, bytes, ← List.length_reverse, leBytes_leNat, List.reverse_reverse]

/-- Nor does it change the bound. -/
theorem value_lt (o : ByteOrder) (bs : List UInt8) : o.value bs < 256 ^ bs.length := by
  cases o with
  | little => exact leNat_lt bs
  | big =>
      rw [value, ← List.length_reverse]
      exact leNat_lt _

/-- One byte has one order. -/
theorem value_singleton (o o' : ByteOrder) (b : UInt8) : o.value [b] = o'.value [b] := by
  cases o <;> cases o' <;> rfl

end ByteOrder

end Bytes
