import Mathlib.Tactic
import SharedExchange.Proofs.Making
import SharedExchange.Proofs.LatestRecord.Slots

/-! # Making and finding a cell

A cell that was just made presents its first record, for every type of records that a program can
have (`holds_format`), and whoever finds the object of a cell in use takes its header for one in
order (`headed_of_laid`). -/

namespace SharedExchange

/-- What holds of every type of records: its alignment is a power of two, and neither that nor its
size is larger than what a compiler for addresses of 64 bits accepts. -/
structure RecordType.WellFormed (type : RecordType) : Prop where
  isPowerOfTwo : type.alignment.isPowerOfTwo
  alignment_le : type.alignment ≤ 2 ^ 29
  size_lt : type.size < 2 ^ 61

namespace LatestRecord

/-- To round up makes no number smaller. -/
theorem le_roundUp {n multiple : Nat} (h : 0 < multiple) : n ≤ roundUp n multiple := by
  have hdiv := Nat.div_add_mod (n + multiple - 1) multiple
  have hmod := Nat.mod_lt (n + multiple - 1) h
  rw [roundUp, Nat.mul_comm]
  omega

/-- To round up adds less than the multiple. -/
theorem roundUp_le (n multiple : Nat) : roundUp n multiple ≤ n + multiple - 1 :=
  Nat.div_mul_le_self ..

/-- The slots of a fresh cell start behind the header, at a multiple of the alignment. -/
theorem freshSlotsStart_spec {type : RecordType} (h : type.WellFormed) :
    signature.headerSize ≤ freshSlotsStart type ∧ freshSlotsStart type ≤ 640 + 2 ^ 29 ∧
      freshSlotsStart type % type.alignment = 0 := by
  have hle := h.alignment_le
  have hmax : 0 < max type.alignment 64 := by omega
  refine ⟨le_roundUp hmax, ?_, ?_⟩
  · have hround := roundUp_le signature.headerSize (max type.alignment 64)
    simp only [signature] at hround
    rw [freshSlotsStart]
    simp only [signature]
    omega
  · -- of two powers of two the smaller divides the larger
    have hdvd : type.alignment ∣ max type.alignment 64 := by
      obtain ⟨k, hk⟩ := h.isPowerOfTwo
      rcases Nat.le_total type.alignment 64 with hsmall | hlarge
      · rw [Nat.max_eq_right hsmall, hk]
        have hexp : 2 ^ k ≤ 2 ^ 6 := hk ▸ hsmall
        exact Nat.pow_dvd_pow 2 ((Nat.pow_le_pow_iff_right (by decide)).1 hexp)
      · rw [Nat.max_eq_left hlarge]
    exact Nat.mod_eq_zero_of_dvd (hdvd.trans (Nat.dvd_mul_left ..))

section

variable {type : RecordType} {first : List UInt8} {m : Memory}

/-- Behind the words of its layout, the header of a fresh cell is left as it was found. -/
theorem get_format {i : Nat} (hlow : slotsStartAt + 8 ≤ i) (hhigh : i < freshSlotsStart type) :
    (format type first m).get i = m.get i := by
  rw [slotsStartAt] at hlow
  rw [format, Memory.get_store_of_disjoint _ (.inl (by omega)),
    Memory.get_store_of_disjoint _ (.inl hhigh),
    Memory.get_store64_of_disjoint _ _ (.inr (by rw [slotsStartAt]; omega)),
    Memory.get_store64_of_disjoint _ _ (.inr (by rw [alignmentAt]; omega)),
    Memory.get_store64_of_disjoint _ _ (.inr (by rw [recordSizeAt]; omega)), Signature.write,
    Memory.get_store32_of_disjoint _ _ (.inr (by omega)),
    Memory.get_store32_of_disjoint _ _ (.inr (by omega))]

/-- The signature of a fresh cell is not written over. -/
theorem get_format_front (hheader : 640 ≤ freshSlotsStart type) {i : Nat} (hi : i < recordSizeAt) :
    (format type first m).get i = (signature.write m).get i := by
  have hfar : ∀ position, recordSizeAt ≤ position → i < position ∨ position + 8 ≤ i :=
    fun position hle => .inl (hi.trans_le hle)
  have hslots : i < freshSlotsStart type := (hi.trans (by decide)).trans_le hheader
  rw [format, Memory.get_store_of_disjoint _ (.inl (by omega)),
    Memory.get_store_of_disjoint _ (.inl hslots),
    Memory.get_store64_of_disjoint _ _ (hfar _ (by decide)),
    Memory.get_store64_of_disjoint _ _ (hfar _ (by decide)),
    Memory.get_store64_of_disjoint _ _ (hfar _ (by decide))]

/-- To be formatted changes no size. -/
@[simp] theorem size_format : (format type first m).size = m.size := by
  simp only [format, Signature.write, Memory.size_store, Memory.size_store64, Memory.size_store32]

/-- The words of the layout of a fresh cell. The slots behind the header do not matter to them. -/
theorem laid_format {c : LatestRecord}
    (hheader : 640 ≤ freshSlotsStart c.type) (hstart : c.slotsStart.toNat = freshSlotsStart c.type)
    (hinside : freshSlotsStart c.type + 2 * c.type.size ≤ m.size) :
    Laid c (format c.type first m) := by
  have hopens : signature.Opens (format c.type first m) := by
    refine Signature.opens_of_front ?_ fun i hi => get_format_front hheader hi
    rw [size_format]
    exact hheader.trans (by omega)
  -- what is written after a word stands behind it
  constructor
  case magic_eq => exact hopens.magic_eq
  case version_eq => exact hopens.version_eq
  case recordSize_eq =>
    rw [format, Memory.load64_store_of_disjoint _ (.inl (by rw [recordSizeAt]; omega)),
      Memory.load64_store_of_disjoint _ (.inl (by rw [recordSizeAt]; omega)),
      Memory.load64_store64_of_disjoint _ _ (.inl (by decide)),
      Memory.load64_store64_of_disjoint _ _ (.inl (by decide)), Memory.load64_store64_same]
  case alignment_eq =>
    rw [format, Memory.load64_store_of_disjoint _ (.inl (by rw [alignmentAt]; omega)),
      Memory.load64_store_of_disjoint _ (.inl (by rw [alignmentAt]; omega)),
      Memory.load64_store64_of_disjoint _ _ (.inl (by decide)), Memory.load64_store64_same]
  case slotsStart_eq =>
    rw [format, Memory.load64_store_of_disjoint _ (.inl (by rw [slotsStartAt]; omega)),
      Memory.load64_store_of_disjoint _ (.inl (by rw [slotsStartAt]; omega)),
      Memory.load64_store64_same, ← hstart, UInt64.ofNat_toNat]
  case header_le =>
    rw [hstart]
    exact hheader
  case inside =>
    rw [hstart, size_format]
    exact hinside

/-- A fresh cell presents its first record, nobody writes, and no count is off. -/
theorem holds_format {c : LatestRecord} (htype : c.type.WellFormed)
    (hfirst : first.length = c.type.size)
    (hstart : c.slotsStart = UInt64.ofNat (freshSlotsStart c.type)) :
    Holds c (format c.type first (Memory.zeros (wholeSize c.type))) first 0 ∧
      Resting (fun _ => false) (format c.type first (Memory.zeros (wholeSize c.type))) := by
  obtain ⟨hheader, hsmall, -⟩ := freshSlotsStart_spec htype
  simp only [signature] at hheader
  have hplace : c.slotsStart.toNat = freshSlotsStart c.type := by
    rw [hstart, UInt64.toNat_ofNat']
    exact Nat.mod_eq_of_lt (by omega)
  -- the words that change in use are zero
  have hword : ∀ position, slotsStartAt + 8 ≤ position → position + 8 ≤ 640 →
      (format c.type first (Memory.zeros (wholeSize c.type))).load64 position = 0 := by
    intro position hlow hhigh
    rw [Memory.load64_congr fun i _ _ => get_format (by omega) (by omega), Memory.load64_zeros]
  have hactive : active (format c.type first (Memory.zeros (wholeSize c.type))) = 0 := by
    rw [active, Memory.load32_congr fun i hlow hhigh => get_format
      (by rw [activeAt] at hlow; rw [slotsStartAt]; omega) (by rw [activeAt] at hhigh; omega)]
    simp [Memory.load32, Memory.load, Memory.slice, List.range_succ]
  refine ⟨⟨laid_format hheader hplace (by rw [Memory.size_zeros, wholeSize]; omega), ?_, ?_, ?_⟩,
    ?_⟩
  · rw [hactive]
  · rw [hactive, slotAt, Nat.mul_zero, Nat.add_zero, hplace, ← hfirst, format,
      Memory.slice_store_of_disjoint _ (.inl (by omega)), Memory.slice_store_same]
  · rw [generation, hword _ (by decide) (by decide)]
    rfl
  · intro slot hslot
    rw [underway, hword _ (by rw [slotsStartAt, sequenceAt]; omega) (by rw [sequenceAt]; omega)]
    rfl

end

/-- A peer that attaches takes the header of the cell for one in order. -/
theorem headed_of_laid {c : LatestRecord} {m : Memory} (h : Laid c m) (htype : c.type.WellFormed) :
    Headed c.type m := by
  have hsize := htype.size_lt
  have halignment := htype.alignment_le
  have hinside := h.inside
  have hheader := h.header_le
  refine ⟨⟨by omega, h.magic_eq, h.version_eq⟩, ?_, ?_⟩
  · rw [h.recordSize_eq, UInt64.toNat_ofNat']
    exact Nat.mod_eq_of_lt (by omega)
  · rw [h.alignment_eq, UInt64.toNat_ofNat']
    exact Nat.mod_eq_of_lt (by omega)

end LatestRecord
end SharedExchange
