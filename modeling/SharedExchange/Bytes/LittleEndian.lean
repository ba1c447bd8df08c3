/-! # Little-endian numbers

A natural number as a fixed count of bytes, least significant first, and back. Every number that
travels through a shared object or through the wire form is written this way.

* `toBytes width n` has exactly `width` bytes; higher bits of `n` are dropped.
* `ofBytes_toBytes` reads it back modulo `bound width`, the count of numbers that fit, and
  `toBytes_ofBytes` says that no other bytes of that length stand for the same number. -/

namespace SharedExchange.LittleEndian

/-- The `width` bytes of `n`, least significant first. -/
def toBytes : (width n : Nat) → List UInt8
  | 0, _ => []
  | width + 1, n => UInt8.ofNat n :: toBytes width (n / 256)

/-- The number with the given bytes. -/
def ofBytes : List UInt8 → Nat
  | [] => 0
  | b :: bs => b.toNat + 256 * ofBytes bs

/-- How many numbers `width` bytes can tell apart. -/
def bound : (width : Nat) → Nat
  | 0 => 1
  | width + 1 => 256 * bound width

/-- No bytes are taken for a number of no width. -/
@[simp] theorem toBytes_zero (n : Nat) : toBytes 0 n = [] := rfl

/-- The lowest byte comes first. -/
theorem toBytes_succ (width n : Nat) :
    toBytes (width + 1) n = UInt8.ofNat n :: toBytes width (n / 256) := rfl

/-- No bytes are zero. -/
@[simp] theorem ofBytes_nil : ofBytes [] = 0 := rfl

/-- The first byte is the lowest. -/
@[simp] theorem ofBytes_cons (b : UInt8) (bs : List UInt8) :
    ofBytes (b :: bs) = b.toNat + 256 * ofBytes bs := rfl

/-- A number takes as many bytes as it is wide. -/
@[simp] theorem length_toBytes (width n : Nat) : (toBytes width n).length = width := by
  induction width generalizing n with
  | zero => rfl
  | succ width ih => simp [toBytes_succ, ih]

/-- One byte more has room for 256 times as many numbers. -/
theorem bound_succ (width : Nat) : bound (width + 1) = 256 * bound width := rfl

/-- Bytes are a number of their width. -/
theorem ofBytes_lt (bs : List UInt8) : ofBytes bs < bound bs.length := by
  induction bs with
  | nil => simp [bound]
  | cons b bs ih =>
    have hb : b.toNat < 256 := b.toNat_lt
    rw [ofBytes_cons, List.length_cons, bound_succ]
    omega

/-- A number is read back from its bytes as far as they have room for it. -/
theorem ofBytes_toBytes (width n : Nat) : ofBytes (toBytes width n) = n % bound width := by
  induction width generalizing n with
  | zero => simp [bound, Nat.mod_one]
  | succ width ih =>
    rw [toBytes_succ, ofBytes_cons, ih, bound_succ, Nat.mod_mul, UInt8.toNat_ofNat']

/-- A number that fits is read back from its bytes. -/
theorem ofBytes_toBytes_of_lt {width n : Nat} (h : n < bound width) :
    ofBytes (toBytes width n) = n := by
  rw [ofBytes_toBytes, Nat.mod_eq_of_lt h]

/-- Bytes are written back as they were read. -/
theorem toBytes_ofBytes (bs : List UInt8) : toBytes bs.length (ofBytes bs) = bs := by
  induction bs with
  | nil => rfl
  | cons b bs ih =>
    have hb : b.toNat < 256 := b.toNat_lt
    have hdiv : (b.toNat + 256 * ofBytes bs) / 256 = ofBytes bs := by omega
    have hmod : (b.toNat + 256 * ofBytes bs) % 256 = b.toNat := by omega
    rw [List.length_cons, ofBytes_cons, toBytes_succ, hdiv, ih]
    congr 1
    apply UInt8.toNat_inj.1
    rw [UInt8.toNat_ofNat']
    exact hmod

end SharedExchange.LittleEndian
