import Std.Data.TreeMap
import SharedExchange.Bytes.LittleEndian

/-! # The bytes of a shared object

A `Memory` is a size and the bytes written so far; a byte nobody has written is zero, so an object
of any size costs only what is stored in it. The view is `Memory.get`, and every other reading and
writing operation is explained through it: `get_set` and `get_store` say what a write does to each
byte, and from them follow the two laws that reasoning about a layout needs, that a number read
where it was stored is the number stored (`load_put_same`) and that stores elsewhere do not matter
(`load_put_of_disjoint`).

Reading and writing are not confined to the size: staying inside is a property of the structures
laid over a memory, and is stated about them. -/

namespace SharedExchange

/-- The contents of one shared object. -/
structure Memory where
  /-- How many bytes the object has. -/
  size : Nat
  /-- The bytes written so far, by position. -/
  written : Std.TreeMap Nat UInt8

namespace Memory

/-- A fresh object: all bytes are zero. -/
def zeros (size : Nat) : Memory := ⟨size, ∅⟩

instance : Inhabited Memory := ⟨zeros 0⟩

/-- The byte at a position. -/
def get (m : Memory) (i : Nat) : UInt8 := m.written.getD i 0

/-- Overwrite one byte. -/
def set (m : Memory) (i : Nat) (b : UInt8) : Memory := { m with written := m.written.insert i b }

/-- Overwrite consecutive bytes from `start` on. -/
def store (m : Memory) (start : Nat) : List UInt8 → Memory
  | [] => m
  | b :: bs => (m.set start b).store (start + 1) bs

/-- The `count` bytes from `start` on. -/
def slice (m : Memory) (start count : Nat) : List UInt8 :=
  (List.range count).map fun i => m.get (start + i)

/-- The number in `width` little-endian bytes from `start` on. -/
def load (m : Memory) (width start : Nat) : Nat := LittleEndian.ofBytes (m.slice start width)

/-- Write a number as `width` little-endian bytes from `start` on. -/
def put (m : Memory) (width start n : Nat) : Memory := m.store start (LittleEndian.toBytes width n)

/-- The 32-bit word at a position. -/
def load32 (m : Memory) (start : Nat) : UInt32 := UInt32.ofNat (m.load 4 start)

/-- The 64-bit word at a position. -/
def load64 (m : Memory) (start : Nat) : UInt64 := UInt64.ofNat (m.load 8 start)

/-- Write a 32-bit word. -/
def store32 (m : Memory) (start : Nat) (word : UInt32) : Memory := m.put 4 start word.toNat

/-- Write a 64-bit word. -/
def store64 (m : Memory) (start : Nat) (word : UInt64) : Memory := m.put 8 start word.toNat

/-- Replace the 64-bit word at a position by a function of it. -/
def modify64 (m : Memory) (start : Nat) (f : UInt64 → UInt64) : Memory :=
  m.store64 start (f (m.load64 start))

/-- An object that starts with the given bytes and is zero behind them, up to at least `size`. -/
def ofBytes (size : Nat) (bytes : List UInt8) : Memory :=
  (zeros (max size bytes.length)).store 0 bytes

/-! ## The view after each operation -/

/-- Fresh bytes are zero. -/
@[simp] theorem get_zeros (size i : Nat) : (zeros size).get i = 0 := by
  simp [zeros, get]

/-- Fresh bytes are as many as were asked for. -/
@[simp] theorem size_zeros (size : Nat) : (zeros size).size = size := rfl

/-- Setting a byte keeps the size. -/
@[simp] theorem size_set (m : Memory) (i : Nat) (b : UInt8) : (m.set i b).size = m.size := rfl

/-- Setting a byte changes that byte only. -/
theorem get_set (m : Memory) (i j : Nat) (b : UInt8) :
    (m.set i b).get j = if j = i then b else m.get j := by
  simp only [get, set, Std.TreeMap.getD_insert, Std.LawfulEqOrd.compare_eq_iff_eq]
  by_cases h : i = j
  · simp [h]
  · simp [h, Ne.symm h]

/-- Storing nothing changes nothing. -/
@[simp] theorem store_nil (m : Memory) (start : Nat) : m.store start [] = m := rfl

/-- Storing keeps the size. -/
@[simp] theorem size_store (m : Memory) (start : Nat) (bytes : List UInt8) :
    (m.store start bytes).size = m.size := by
  induction bytes generalizing m start with
  | nil => rfl
  | cons b bs ih => rw [store, ih, size_set]

/-- Storing changes the bytes stored over, and only those. -/
theorem get_store (m : Memory) (start : Nat) (bytes : List UInt8) (i : Nat) :
    (m.store start bytes).get i =
      if h : start ≤ i ∧ i - start < bytes.length then (bytes[i - start]) else m.get i := by
  induction bytes generalizing m start with
  | nil => simp
  | cons b bs ih =>
    rw [store, ih, get_set]
    by_cases hlt : i < start
    · -- a byte in front of all that is stored
      have h₁ : ¬ (start + 1 ≤ i ∧ i - (start + 1) < bs.length) := by omega
      have h₂ : ¬ (start ≤ i ∧ i - start < (b :: bs).length) := by omega
      have h₃ : i ≠ start := by omega
      rw [dif_neg h₁, dif_neg h₂, if_neg h₃]
    · by_cases heq : i = start
      · subst heq
        rw [dif_neg (by omega), if_pos rfl, dif_pos (by simp)]
        simp
      · -- a byte behind the first one, where the rest is stored or all stays
        have hsub : i - start = (i - (start + 1)) + 1 := by omega
        by_cases hin : i - (start + 1) < bs.length
        · have h₁ : start + 1 ≤ i ∧ i - (start + 1) < bs.length := by omega
          have h₂ : start ≤ i ∧ i - start < (b :: bs).length := by
            simp only [List.length_cons]
            omega
          rw [dif_pos h₁, dif_pos h₂]
          simp [hsub]
        · have h₁ : ¬ (start + 1 ≤ i ∧ i - (start + 1) < bs.length) := by omega
          have h₂ : ¬ (start ≤ i ∧ i - start < (b :: bs).length) := by
            simp only [List.length_cons]
            omega
          rw [dif_neg h₁, dif_neg h₂, if_neg heq]

/-- Storing elsewhere leaves a byte as it was. -/
theorem get_store_of_disjoint (m : Memory) {start : Nat} {bytes : List UInt8} {i : Nat}
    (h : i < start ∨ start + bytes.length ≤ i) : (m.store start bytes).get i = m.get i := by
  rw [get_store, dif_neg (by omega)]

/-- A slice has the length asked for. -/
@[simp] theorem length_slice (m : Memory) (start count : Nat) :
    (m.slice start count).length = count := by
  simp [slice]

/-- A slice has the bytes from its start on. -/
theorem getElem_slice (m : Memory) (start count i : Nat) (h : i < (m.slice start count).length) :
    (m.slice start count)[i] = m.get (start + i) := by
  simp [slice]

/-- A slice depends on its own bytes only. -/
theorem slice_congr {m m' : Memory} {start count : Nat}
    (h : ∀ i, start ≤ i → i < start + count → m.get i = m'.get i) :
    m.slice start count = m'.slice start count := by
  refine List.map_congr_left fun i hi => h _ (by omega) ?_
  have := List.mem_range.1 hi
  omega

/-- What was stored is found. -/
theorem slice_store_same (m : Memory) (start : Nat) (bytes : List UInt8) :
    (m.store start bytes).slice start bytes.length = bytes := by
  refine List.ext_getElem (by simp) fun i hi hb => ?_
  rw [getElem_slice, get_store, dif_pos ⟨by omega, by omega⟩]
  congr 1
  omega

/-- Storing elsewhere leaves a slice as it was. -/
theorem slice_store_of_disjoint (m : Memory) {start count start' : Nat} {bytes : List UInt8}
    (h : start + count ≤ start' ∨ start' + bytes.length ≤ start) :
    (m.store start' bytes).slice start count = m.slice start count :=
  slice_congr fun i _ _ => get_store_of_disjoint m (by omega)

/-! ## Numbers -/

/-- Writing a number keeps the size. -/
@[simp] theorem size_put (m : Memory) (width start n : Nat) :
    (m.put width start n).size = m.size := size_store ..

/-- A number that is read is one of its width. -/
theorem load_lt (m : Memory) (width start : Nat) :
    m.load width start < LittleEndian.bound width := by
  have := LittleEndian.ofBytes_lt (m.slice start width)
  rwa [length_slice] at this

/-- Fresh words are zero. -/
@[simp] theorem load64_zeros (size start : Nat) : (zeros size).load64 start = 0 := by
  simp [load64, load, slice, List.range_succ]

/-- What a word is depends on its own bytes. -/
theorem load64_congr {m m' : Memory} {start : Nat}
    (h : ∀ i, start ≤ i → i < start + 8 → m.get i = m'.get i) :
    m.load64 start = m'.load64 start := by
  rw [load64, load, slice_congr h, load64, load]

/-- A word of 32 bits depends on its own bytes only. -/
theorem load32_congr {m m' : Memory} {start : Nat}
    (h : ∀ i, start ≤ i → i < start + 4 → m.get i = m'.get i) :
    m.load32 start = m'.load32 start := by
  rw [load32, load, slice_congr h, load32, load]

/-- A number that was written is read back as far as its width has room for it. -/
theorem load_put_same (m : Memory) (width start n : Nat) :
    (m.put width start n).load width start = n % LittleEndian.bound width := by
  have h := slice_store_same m start (LittleEndian.toBytes width n)
  rw [LittleEndian.length_toBytes] at h
  rw [load, put, h, LittleEndian.ofBytes_toBytes]

/-- Storing elsewhere leaves a number as it was. -/
theorem load_store_of_disjoint (m : Memory) {width start start' : Nat} {bytes : List UInt8}
    (h : start + width ≤ start' ∨ start' + bytes.length ≤ start) :
    (m.store start' bytes).load width start = m.load width start := by
  rw [load, slice_store_of_disjoint m h, load]

/-- Writing a number elsewhere leaves a number as it was. -/
theorem load_put_of_disjoint (m : Memory) {width start width' start' : Nat} (n : Nat)
    (h : start + width ≤ start' ∨ start' + width' ≤ start) :
    (m.put width' start' n).load width start = m.load width start := by
  rw [put, load_store_of_disjoint m (by simpa using h)]

/-- Storing elsewhere leaves a word of 64 bits as it was. -/
theorem load64_store_of_disjoint (m : Memory) {start start' : Nat} {bytes : List UInt8}
    (h : start + 8 ≤ start' ∨ start' + bytes.length ≤ start) :
    (m.store start' bytes).load64 start = m.load64 start := by
  rw [load64, load_store_of_disjoint m h, load64]

/-- Storing elsewhere leaves a word of 32 bits as it was. -/
theorem load32_store_of_disjoint (m : Memory) {start start' : Nat} {bytes : List UInt8}
    (h : start + 4 ≤ start' ∨ start' + bytes.length ≤ start) :
    (m.store start' bytes).load32 start = m.load32 start := by
  rw [load32, load_store_of_disjoint m h, load32]

/-- A word of 64 bits that was written is read back. -/
@[simp] theorem load64_store64_same (m : Memory) (start : Nat) (word : UInt64) :
    (m.store64 start word).load64 start = word := by
  have h : word.toNat < LittleEndian.bound 8 := word.toNat_lt
  rw [load64, store64, load_put_same, Nat.mod_eq_of_lt h, UInt64.ofNat_toNat]

/-- Writing a word of 64 bits elsewhere leaves one as it was. -/
theorem load64_store64_of_disjoint (m : Memory) {start start' : Nat} (word : UInt64)
    (h : start + 8 ≤ start' ∨ start' + 8 ≤ start) :
    (m.store64 start' word).load64 start = m.load64 start := by
  rw [load64, store64, load_put_of_disjoint m _ h, load64]

/-- Writing a word of 64 bits elsewhere leaves one of 32 bits as it was. -/
theorem load32_store64_of_disjoint (m : Memory) {start start' : Nat} (word : UInt64)
    (h : start + 4 ≤ start' ∨ start' + 8 ≤ start) :
    (m.store64 start' word).load32 start = m.load32 start := by
  rw [load32, store64, load_put_of_disjoint m _ h, load32]

/-- Writing a word of 64 bits elsewhere leaves a byte as it was. -/
theorem get_store64_of_disjoint (m : Memory) {i start : Nat} (word : UInt64)
    (h : i < start ∨ start + 8 ≤ i) : (m.store64 start word).get i = m.get i := by
  rw [store64, put, get_store_of_disjoint m (by simpa using h)]

/-- Writing a word of 64 bits keeps the size. -/
@[simp] theorem size_store64 (m : Memory) (start : Nat) (word : UInt64) :
    (m.store64 start word).size = m.size := size_put ..

/-- A word of 32 bits that was written is read back. -/
@[simp] theorem load32_store32_same (m : Memory) (start : Nat) (word : UInt32) :
    (m.store32 start word).load32 start = word := by
  have h : word.toNat < LittleEndian.bound 4 := word.toNat_lt
  rw [load32, store32, load_put_same, Nat.mod_eq_of_lt h, UInt32.ofNat_toNat]

/-- Writing a word of 32 bits elsewhere leaves a byte as it was. -/
theorem get_store32_of_disjoint (m : Memory) {i start : Nat} (word : UInt32)
    (h : i < start ∨ start + 4 ≤ i) : (m.store32 start word).get i = m.get i := by
  rw [store32, put, get_store_of_disjoint m (by simpa using h)]

/-- Writing a word of 32 bits keeps the size. -/
@[simp] theorem size_store32 (m : Memory) (start : Nat) (word : UInt32) :
    (m.store32 start word).size = m.size := size_put ..

/-- Writing a word of 32 bits elsewhere leaves one as it was. -/
theorem load32_store32_of_disjoint (m : Memory) {start start' : Nat} (word : UInt32)
    (h : start + 4 ≤ start' ∨ start' + 4 ≤ start) :
    (m.store32 start' word).load32 start = m.load32 start := by
  rw [load32, store32, load_put_of_disjoint m _ h, load32]

/-- Writing a word of 32 bits elsewhere leaves one of 64 bits as it was. -/
theorem load64_store32_of_disjoint (m : Memory) {start start' : Nat} (word : UInt32)
    (h : start + 8 ≤ start' ∨ start' + 4 ≤ start) :
    (m.store32 start' word).load64 start = m.load64 start := by
  rw [load64, store32, load_put_of_disjoint m _ h, load64]

end Memory
end SharedExchange
