import Mathlib.Tactic
import SharedExchange.Pool.Blocks

/-! # Size classes

The sizes of the blocks of a pool as natural numbers: class `c` has blocks of `64 * 2 ^ c` bytes.
`sizeClass` picks the class of the smallest blocks that are large enough (`classBytes_sizeClass`),
and finds the class of a block back from its size (`sizeClass_classBytes`). -/

namespace SharedExchange.Pool

/-- The size of the blocks of a class, as a natural number. -/
def classBytes (c : Nat) : Nat := minBlock * 2 ^ c

/-- Blocks have powers of two for sizes. -/
theorem classBytes_eq (c : Nat) : classBytes c = 2 ^ (c + 6) := by
  rw [classBytes, minBlock, Nat.pow_add, Nat.mul_comm]

/-- No class is smaller than the smallest block. -/
theorem minBlock_le_classBytes (c : Nat) : minBlock ≤ classBytes c :=
  Nat.le_mul_of_pos_right _ (Nat.two_pow_pos c)

/-- Every class is a multiple of the smallest block. -/
theorem classBytes_mod_minBlock (c : Nat) : classBytes c % minBlock = 0 :=
  Nat.mul_mod_right ..

/-- The largest class has blocks of 2⁴⁵ bytes. -/
theorem classBytes_le {c : Nat} (hc : c < classCount) : classBytes c ≤ 0x200000000000 := by
  rw [classBytes_eq]
  have hle : c + 6 ≤ 45 := by
    simp only [classCount] at hc
    omega
  calc 2 ^ (c + 6) ≤ 2 ^ 45 := Nat.pow_le_pow_right (by decide) hle
    _ = 0x200000000000 := by decide

/-- The size of a class is computed as a word without loss. -/
@[simp] theorem toNat_classSize {c : Nat} (hc : c < classCount) :
    (classSize c).toNat = classBytes c := by
  have hle := classBytes_le hc
  have hshift : minBlock <<< c = classBytes c := Nat.shiftLeft_eq ..
  rw [classSize, hshift, UInt64.toNat_ofNat']
  exact Nat.mod_eq_of_lt (by omega)

/-- The size of a class is a power of two. -/
theorem isPowerOfTwo_classBytes (c : Nat) : (classBytes c).isPowerOfTwo :=
  ⟨c + 6, classBytes_eq c⟩

/-- The class that is picked for a request has blocks of the smallest power of two that will do. -/
theorem classBytes_sizeClass (total : Nat) :
    classBytes (sizeClass total) = 2 ^ Nat.clog 2 (max total minBlock) := by
  have hmin : 64 ≤ max total minBlock := Nat.le_max_right ..
  have hne : max total minBlock - 1 ≠ 0 := by omega
  have hlow : 2 ^ (max total minBlock - 1).log2 < max total minBlock := by
    have hself := Nat.log2_self_le hne
    omega
  have hhigh : max total minBlock ≤ 2 ^ ((max total minBlock - 1).log2 + 1) := by
    have hself := Nat.lt_log2_self (n := max total minBlock - 1)
    omega
  -- at least five, so the subtraction in `sizeClass` does not stop at zero
  have hlog : 5 ≤ (max total minBlock - 1).log2 := (Nat.le_log2 hne).2 (by omega)
  have hclog : Nat.clog 2 (max total minBlock) = (max total minBlock - 1).log2 + 1 :=
    Nat.le_antisymm (Nat.clog_le_of_le_pow hhigh) ((Nat.lt_clog_iff_pow_lt (by decide)).2 hlow)
  rw [classBytes_eq, hclog, sizeClass]
  congr 1
  omega

/-- The class that is picked for a request holds it. -/
theorem le_classBytes_sizeClass (total : Nat) : total ≤ classBytes (sizeClass total) := by
  rw [classBytes_sizeClass]
  exact (Nat.le_max_left ..).trans (Nat.le_pow_clog (by decide) _)

/-- A class is found back from the size of its blocks. -/
@[simp] theorem sizeClass_classBytes (c : Nat) : sizeClass (classBytes c) = c := by
  have hpow : 2 ^ (c + 6) = 2 * 2 ^ (c + 5) := by rw [Nat.pow_succ, Nat.mul_comm]
  have hpos := Nat.two_pow_pos (c + 5)
  have hmax : max (classBytes c) minBlock = 2 ^ (c + 6) := by
    rw [Nat.max_eq_left (minBlock_le_classBytes c), classBytes_eq]
  -- the logarithm of one less than a power of two is one less than the exponent
  have hge : c + 5 ≤ (2 ^ (c + 6) - 1).log2 := (Nat.le_log2 (by omega)).2 (by omega)
  have hlt : (2 ^ (c + 6) - 1).log2 < c + 6 := (Nat.log2_lt (by omega)).2 (by omega)
  rw [sizeClass, hmax]
  omega

/-- No two classes have the same size. -/
theorem classBytes_inj {c d : Nat} : classBytes c = classBytes d ↔ c = d := by
  constructor
  · intro h
    rw [← sizeClass_classBytes c, h, sizeClass_classBytes]
  · rintro rfl
    rfl

/-- A lower class has a smaller size, and only a lower class. -/
theorem classBytes_lt_iff : classBytes c < classBytes d ↔ c < d := by
  rw [classBytes_eq, classBytes_eq, Nat.pow_lt_pow_iff_right (by decide)]
  omega

/-- A class that is not higher has no larger size, and only such a class. -/
theorem classBytes_le_iff : classBytes c ≤ classBytes d ↔ c ≤ d := by
  rw [classBytes_eq, classBytes_eq, Nat.pow_le_pow_iff_right (by decide)]
  omega

end SharedExchange.Pool
