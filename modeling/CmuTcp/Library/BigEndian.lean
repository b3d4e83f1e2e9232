import Mathlib.Data.List.Induction
import Mathlib.Tactic.Ring

/-!
# Numbers in Network Byte Order

A number of `k` bytes is written with its most significant byte first.  Reading is the
inverse of writing, in both directions, for every `k`.  A field of a byte string is the
number at a given offset.

The memory of a machine may hold numbers in this order or in the opposite one; the
conversion between a number and the number whose image in memory is in network order is
`hton` and `ntoh`, whichever order the machine has.
-/

namespace BigEndian

/-- The number whose digits to the base `256` are the bytes. -/
def read (bytes : List UInt8) : ℕ :=
  bytes.foldl (fun n b => 256 * n + b.toNat) 0

/-- The last `k` digits of `n` to the base `256`. -/
def write : ℕ → ℕ → List UInt8
  | 0, _ => []
  | k + 1, n => write k (n / 256) ++ [UInt8.ofNat n]

@[simp] theorem length_write (k n : ℕ) : (write k n).length = k := by
  induction k generalizing n with
  | zero => rfl
  | succ k ih => simp [write, ih]

@[simp] theorem read_concat (bytes : List UInt8) (b : UInt8) :
    read (bytes ++ [b]) = 256 * read bytes + b.toNat := by
  simp [read]

/-- What was written is read back, modulo the number of values that `k` bytes have. -/
@[simp] theorem read_write (k n : ℕ) : read (write k n) = n % 256 ^ k := by
  induction k generalizing n with
  | zero => simp [write, read, Nat.mod_one]
  | succ k ih =>
    have hpow : 256 ^ (k + 1) = 256 * 256 ^ k := by ring
    rw [write, read_concat, ih, UInt8.toNat_ofNat', hpow, Nat.mod_mul]
    exact Nat.add_comm _ _

theorem read_lt (bytes : List UInt8) : read bytes < 256 ^ bytes.length := by
  induction bytes using List.reverseRecOn with
  | nil => simp [read]
  | append_singleton bytes b ih =>
    have hb := b.toNat_lt
    rw [read_concat, List.length_append, List.length_singleton, pow_succ]
    omega

/-- What was read is written back. -/
@[simp] theorem write_read (bytes : List UInt8) : write bytes.length (read bytes) = bytes := by
  induction bytes using List.reverseRecOn with
  | nil => rfl
  | append_singleton bytes b ih =>
    have hb := b.toNat_lt
    rw [List.length_append, List.length_singleton, write, read_concat,
      show (256 * read bytes + b.toNat) / 256 = read bytes by omega, ih]
    congr 2
    apply UInt8.toNat_inj.mp
    rw [UInt8.toNat_ofNat']
    omega

/-! ## The byte order of a machine -/

/-- The order in which a machine keeps the bytes of a number in memory. -/
inductive ByteOrder where
  | little
  | big
  deriving DecidableEq, Repr

namespace ByteOrder

/-- The `k` bytes of a number in memory. -/
def image (o : ByteOrder) (k n : ℕ) : List UInt8 :=
  match o with
  | little => (write k n).reverse
  | big => write k n

/-- The number that the bytes in memory stand for. -/
def value (o : ByteOrder) (bytes : List UInt8) : ℕ :=
  match o with
  | little => read bytes.reverse
  | big => read bytes

/-- The number whose image in memory is `n` in network byte order. -/
def hton (o : ByteOrder) (k n : ℕ) : ℕ := o.value (write k n)

/-- The number that the image of `n` in memory is in network byte order. -/
def ntoh (o : ByteOrder) (k n : ℕ) : ℕ := read (o.image k n)

@[simp] theorem length_image (o : ByteOrder) (k n : ℕ) : (o.image k n).length = k := by
  cases o with
  | little => simp [image]
  | big => simp [image]

theorem value_lt (o : ByteOrder) (bytes : List UInt8) : o.value bytes < 256 ^ bytes.length := by
  cases o with
  | little =>
    have hlt := read_lt bytes.reverse
    rwa [List.length_reverse] at hlt
  | big => exact read_lt bytes

@[simp] theorem image_value (o : ByteOrder) (bytes : List UInt8) :
    o.image bytes.length (o.value bytes) = bytes := by
  cases o with
  | little =>
    have hwrite := write_read bytes.reverse
    rw [List.length_reverse] at hwrite
    rw [image, value, hwrite, List.reverse_reverse]
  | big => exact write_read bytes

/-- A number stored after conversion lies in memory in network byte order. -/
@[simp] theorem image_hton (o : ByteOrder) (k n : ℕ) : o.image k (o.hton k n) = write k n := by
  have himage := o.image_value (write k n)
  rwa [length_write] at himage

theorem hton_lt (o : ByteOrder) (k n : ℕ) : o.hton k n < 256 ^ k := by
  have hlt := o.value_lt (write k n)
  rwa [length_write] at hlt

/-- A number loaded from memory and converted is the number in network byte order. -/
theorem ntoh_value (o : ByteOrder) {bytes : List UInt8} {k : ℕ} (h : bytes.length = k) :
    o.ntoh k (o.value bytes) = read bytes := by
  rw [ntoh, ← h, image_value]

end ByteOrder

/-! ## Fields -/

/-- The number in the `len` bytes from `offset` on. -/
def field (bytes : List UInt8) (offset len : ℕ) : ℕ :=
  read ((bytes.drop offset).take len)

theorem field_append_left {xs ys : List UInt8} {offset len : ℕ}
    (h : offset + len ≤ xs.length) : field (xs ++ ys) offset len = field xs offset len := by
  unfold field
  rw [List.drop_append_of_le_length (by omega), List.take_append_of_le_length (by
    rw [List.length_drop]
    omega)]

theorem field_append_right {xs ys : List UInt8} {offset len : ℕ} (h : xs.length ≤ offset) :
    field (xs ++ ys) offset len = field ys (offset - xs.length) len := by
  unfold field
  rw [List.drop_append, List.drop_eq_nil_of_le h, List.nil_append]

@[simp] theorem field_write (k n : ℕ) : field (write k n) 0 k = n % 256 ^ k := by
  unfold field
  rw [List.drop_zero, List.take_of_length_le (le_of_eq (length_write k n)), read_write]

/-- A prefix that reaches past a field determines it. -/
theorem field_take {bytes : List UInt8} {n offset len : ℕ} (h : offset + len ≤ n) :
    field (bytes.take n) offset len = field bytes offset len := by
  unfold field
  rw [List.drop_take, List.take_take, Nat.min_eq_left (by omega)]

end BigEndian
