import Mathlib.Tactic
import SharedExchange.Proofs.Pool.History

/-! # References that a pool accepts

A pool keeps no list of its blocks. It takes a reference for one to a block when the place it names
looks like the start of one: a multiple of the smallest block, with a size in front of the bytes
that ends at or below the cursor. Every block that was ever handed out looks so. So does a place
inside a block where somebody has written a number that can pass for a size (`Feigned`), and there
are no others (`Divided.locate?_iff`).

A reference is served when it asks for no more than the size at its place and the place is one of
the two kinds, and otherwise it is refused and nothing changes (`reference_answered`). A block whose
bytes feign another one shows that references to blocks that were never handed out are served, and
that such a block can be given back (`reference_answered_feigned`). -/

namespace SharedExchange.Pool

variable {p : Pool} {m : Memory} {taken blocks : List UInt64} {stack : Nat → List UInt64}
  {start stop x : Nat} {b : BlockRef}

/-! ## Places that look like a block -/

/-- Every place of a tiling lies in one of its blocks. -/
theorem Tiles.exists_covering (h : Tiles p m stop start blocks) (hlow : start ≤ x)
    (hhigh : x < stop) : ∃ a ∈ blocks, a.toNat ≤ x ∧ x < a.toNat + p.extent m a := by
  induction blocks generalizing start with
  | nil =>
    obtain rfl : start = stop := h
    omega
  | cons a blocks ih =>
    obtain ⟨ha, -, hrest⟩ := h
    by_cases hx : x < start + p.extent m a
    · exact ⟨a, List.mem_cons_self, by omega, by omega⟩
    · obtain ⟨c, hc, hplace⟩ := ih hrest (Nat.not_lt.1 hx)
      exact ⟨c, List.mem_cons_of_mem _ hc, hplace⟩

/-- The extent of a block is a multiple of the smallest block. -/
theorem Tiles.extent_mod_minBlock (h : Tiles p m stop start blocks) {a : UInt64}
    (ha : a ∈ blocks) : p.extent m a % minBlock = 0 := by
  obtain ⟨c, hc, hsize⟩ := h.class_of_mem ha
  rw [extent_eq hc hsize, classBytes_mod_minBlock]

/-- What stands at a place can pass for the header of a block below the cursor. -/
structure LooksCut (p : Pool) (m : Memory) (start : UInt64) : Prop where
  aligned : start.toNat % minBlock = 0
  power : (p.extent m start).isPowerOfTwo
  minBlock_le : minBlock ≤ p.extent m start
  stop_le : start.toNat + p.extent m start ≤ (m.load64 bumpAt).toNat

/-- The bytes of a block hold something that looks like a block of its own. -/
structure Feigned (p : Pool) (m : Memory) (block start : UInt64) : Prop where
  behind : block.toNat + minBlock ≤ start.toNat
  before : start.toNat + minBlock ≤ block.toNat + p.extent m block
  looks : LooksCut p m start

/-- A block looks like one that was cut off. -/
theorem Divided.looksCut (h : Divided p m taken blocks stack) {a : UInt64} (ha : a ∈ blocks) :
    LooksCut p m a := by
  obtain ⟨c, hc, hsize⟩ := h.tiles.class_of_mem ha
  refine ⟨h.tiles.aligned rfl ha, ?_, h.tiles.minBlock_le ha, (h.tiles.bounds ha).2⟩
  rw [extent_eq hc hsize]
  exact isPowerOfTwo_classBytes c

/-- What looks like a block below the cursor is a block or is feigned by the bytes of one. -/
theorem Divided.mem_or_feigned (h : Divided p m taken blocks stack) {a : UInt64}
    (ha : LooksCut p m a) : a ∈ blocks ∨ ∃ block ∈ blocks, Feigned p m block a := by
  have hmin := ha.minBlock_le
  have hstop := ha.stop_le
  have haligned := ha.aligned
  rw [minBlock] at hmin haligned
  obtain ⟨block, hblock, hlow, hhigh⟩ :=
    h.tiles.exists_covering (x := a.toNat) (Nat.zero_le _) (by omega)
  have hstart := h.tiles.aligned rfl hblock
  have hextent := h.tiles.extent_mod_minBlock hblock
  rw [minBlock] at hstart hextent
  by_cases heq : block.toNat = a.toNat
  · left
    rwa [← UInt64.toNat_inj.1 heq]
  · -- both are multiples of the smallest block, so they are that far apart at least
    refine .inr ⟨block, hblock, ?_, ?_, ha⟩
    · rw [minBlock]
      omega
    · rw [minBlock]
      omega

/-- A place is taken for the start of a block when it looks like one and the reference asks for no
more than there is. -/
theorem locate?_eq_some_start_iff (hsize : p.size.toNat < 2 ^ 63)
    (hbump : (m.load64 bumpAt).toNat ≤ p.size.toNat) : p.locate? b m = some b.start ↔
      LooksCut p m b.start ∧ b.size.toNat + blockHeader ≤ p.extent m b.start := by
  have hextent : (p.blockSize b.start m).toNat = p.extent m b.start := rfl
  rw [locate?_eq_some_iff, hextent, UInt64.lt_iff_toNat_lt, UInt64.le_iff_toNat_le,
    UInt64.toNat_add, hextent]
  constructor
  · rintro ⟨-, haligned, hbelow, hpower, hmin, hstop, hfits, -⟩
    -- a power of two that is a word is at most the half of all words, so the end does not wrap
    have hhalf : p.extent m b.start ≤ 2 ^ 63 := by
      obtain ⟨k, hk⟩ := hpower
      have hword : 2 ^ k < 2 ^ 64 := by
        rw [← hk, ← hextent]
        exact UInt64.toNat_lt _
      have hexp := (Nat.pow_lt_pow_iff_right (by decide)).1 hword
      rw [hk]
      exact Nat.pow_le_pow_right (by decide) (by omega)
    rw [Nat.mod_eq_of_lt (by omega)] at hstop
    refine ⟨⟨haligned, hpower, hmin, hstop⟩, ?_⟩
    rw [minBlock] at hmin
    rw [blockHeader] at hfits ⊢
    omega
  · rintro ⟨⟨haligned, hpower, hmin, hstop⟩, hfits⟩
    have hpos : 0 < minBlock := by decide
    have hoffset : b.offset = b.start + UInt64.ofNat blockHeader := (UInt64.sub_add_cancel ..).symm
    have hbehind : blockHeader ≤ b.offset.toNat := by
      rw [hoffset, UInt64.toNat_add, UInt64.toNat_ofNat']
      simp only [blockHeader]
      omega
    refine ⟨hbehind, haligned, by omega, hpower, hmin, ?_, by omega, rfl⟩
    exact (Nat.mod_le ..).trans hstop

/-- The references that are taken for ones to a block: those that ask for no more than there is, at
the start of a block or of what the bytes of a block feign. -/
theorem Divided.locate?_iff (h : Divided p m taken blocks stack) (hsize : p.size.toNat < 2 ^ 63) :
    p.locate? b m = some b.start ↔ b.size.toNat + blockHeader ≤ p.extent m b.start ∧
      (b.start ∈ blocks ∨ ∃ block ∈ blocks, Feigned p m block b.start) := by
  rw [locate?_eq_some_start_iff hsize h.bump_le, and_comm]
  refine and_congr_right fun _ => ⟨h.mem_or_feigned, ?_⟩
  rintro (hblock | ⟨block, -, hfeigned⟩)
  · exact h.looksCut hblock
  · exact hfeigned.looks

/-! ## What a reference is answered -/

/-- The refusal of a reference. -/
def refusal (b : BlockRef) : Fault := .unknownBlock b.offset.toNat b.size.toNat

/-- The reference reaches the bytes that it names, and the block at its place can be given back if
its size is that of a class. A size that no class has cannot be put on a stack, and the attempt to
do so breaks off. -/
structure Served (p : Pool) (b : BlockRef) (m : Memory) : Prop where
  read : p.read b m = .ok (p.contents m b)
  write : ∀ bytes : List UInt8, bytes.length ≤ b.size.toNat →
    p.write b bytes m = (.ok (), m.store (p.bytesAt b) bytes)
  edit : ∀ (α : Type) (f : List UInt8 → Except Fault α × List UInt8),
    p.edit b f m = ((f (p.contents m b)).1,
      m.store (p.bytesAt b) ((f (p.contents m b)).2.take b.size.toNat))
  deallocate : p.deallocate b m =
    if sizeClass (p.extent m b.start) < classCount then
      (.ok (), p.freedMemory (sizeClass (p.extent m b.start)) b.start m)
    else (.error (.crashed .outOfBounds), m)

/-- Whatever is asked through the reference is refused, and nothing changes. -/
structure Refused (p : Pool) (b : BlockRef) (m : Memory) : Prop where
  read : p.read b m = .error (refusal b)
  write : ∀ bytes : List UInt8, p.write b bytes m = (.error (refusal b), m)
  edit : ∀ (α : Type) (f : List UInt8 → Except Fault α × List UInt8),
    p.edit b f m = (.error (refusal b), m)
  deallocate : p.deallocate b m = (.error (.refused (refusal b)), m)

/-- A reference is served when it means a block. -/
theorem served_of_locate? (h : p.locate? b m = some b.start) : Served p b m := by
  have hlocate : p.locate b m = .ok b.start := by rw [locate, h]
  have hread : p.read b m = .ok (p.contents m b) := by
    rw [read, hlocate]
    rfl
  refine ⟨hread, ?_, ?_, ?_⟩
  · intro bytes hlength
    rw [write, hlocate]
    exact if_neg (Nat.not_lt.2 hlength)
  · intro α f
    rw [edit, hread]
  · rw [deallocate, hlocate, extent]
    by_cases hclass : sizeClass (p.blockSize b.start m).toNat < classCount
    · rw [if_pos hclass]
      exact if_neg (Nat.not_le.2 hclass)
    · rw [if_neg hclass]
      exact if_pos (Nat.not_lt.1 hclass)

/-- A reference is refused when it means no block. -/
theorem refused_of_locate? (h : p.locate? b m ≠ some b.start) : Refused p b m := by
  have hnone : p.locate? b m = none := by
    refine Option.eq_none_iff_forall_ne_some.2 fun a ha => h ?_
    rw [ha, (locate?_eq_some_iff.1 ha).2.2.2.2.2.2.2]
  have hlocate : p.locate b m = .error (refusal b) := by
    rw [locate, hnone]
    rfl
  have hread : p.read b m = .error (refusal b) := by
    rw [read, hlocate]
    rfl
  refine ⟨hread, fun bytes => ?_, fun α f => ?_, ?_⟩
  · rw [write, hlocate]
  · rw [edit, hread]
  · rw [deallocate, hlocate]

/-! ## References to a pool in use -/

/-- A place passes for the start of a block: a block was handed out there, or the bytes of one that
was handed out feign it. -/
def Usage.Passes (u : Usage) (events : List Event) (p : Pool) (start : UInt64) : Prop :=
  u.HandedOut events start ∨
    ∃ block, u.HandedOut events block ∧ Feigned p (u.run events).memory block start

/-- However a pool is used, every reference is served when it asks for no more than the size at its
place and the place passes for the start of a block; every other reference is refused and changes
nothing. -/
theorem reference_answered {name : String} {size : UInt64} {d d' : Directory} {p : Pool}
    (h : create name size d = (.ok p, d')) (events : List Event) (b : BlockRef) :
    let u := (Usage.fresh p d').run events
    ∀ q ∈ u.handles,
      let accepted := b.size.toNat + blockHeader ≤ q.extent u.memory b.start ∧
        (Usage.fresh p d').Passes events q b.start
      (accepted → Served q b u.memory) ∧ (¬accepted → Refused q b u.memory) := by
  intro u q hq accepted
  obtain ⟨hproper, hkept⟩ := kept_fresh h
  obtain ⟨-, hlimit, hp, hmemory⟩ := eq_of_create h
  have hfresh : (Usage.fresh p d').memory.load64 bumpAt = 0 := by
    rw [Usage.memory, Usage.fresh, hmemory, load64_format _ _ (by decide) (by decide),
      Memory.load64_zeros]
  have hrun := hkept.run hproper events
  have hagree := hrun.agree q hq
  obtain ⟨blocks, stack, hdiv, -⟩ := hrun.sound
  have hhanded := Usage.mem_blocks_iff hproper hkept hfresh events hdiv
  -- an object that was mapped is far smaller than the half of all words
  have hsize : q.size.toNat < 2 ^ 63 := by
    have hmax : Directory.mappingLimit < 2 ^ 63 := by decide
    rw [wholeSize] at hlimit
    rw [hagree, hp]
    simp only
    omega
  have hdiv' := hdiv.reattach q.attachment
  rw [← hagree] at hdiv'
  have hiff : q.locate? b u.memory = some b.start ↔ accepted := by
    rw [hdiv'.locate?_iff hsize]
    simp only [hhanded]
    rfl
  exact ⟨fun haccepted => served_of_locate? (hiff.2 haccepted),
    fun hrefused => refused_of_locate? (mt hiff.1 hrefused)⟩

/-- Three blocks of 2⁴⁵ bytes, of which the holder of the first wrote the number 2⁴⁶ at byte 48. -/
def overfeigning : List Event :=
  [.act 0 (.allocate 0x1ffffffffff0), .act 0 (.allocate 0x1ffffffffff0),
    .act 0 (.allocate 0x1ffffffffff0),
    .act 0 (.write ⟨16, 0x1ffffffffff0⟩
      (List.replicate 48 0 ++ LittleEndian.toBytes 8 0x400000000000))]

/-- The place of that number passes for the start of a block that is larger than any class, so a
reference to it is served, but giving it back breaks off. -/
theorem served_overfeigned :
    ∃ p d', create "blocks" 0x600000000000 Directory.empty = (.ok p, d') ∧
      let u := (Usage.fresh p d').run overfeigning
      Served p ⟨80, 8⟩ u.memory ∧
        p.deallocate ⟨80, 8⟩ u.memory = (.error (.crashed .outOfBounds), u.memory) := by
  let p : Pool := ⟨⟨0, "blocks", 0x600000000300, true⟩, 0x600000000000, 768⟩
  let d' := (create "blocks" 0x600000000000 Directory.empty).2
  have hcreate : create "blocks" 0x600000000000 Directory.empty = (.ok p, d') := rfl
  refine ⟨p, d', hcreate, ?_⟩
  intro u
  have hrun : (p.locate? ⟨80, 8⟩ u.memory = some 64) ∧ p.extent u.memory 64 = 0x400000000000 := by
    decide +kernel
  obtain ⟨hlocate, hextent⟩ := hrun
  have hstart : (⟨80, 8⟩ : BlockRef).start = 64 := by decide
  have hserved : Served p ⟨80, 8⟩ u.memory := served_of_locate? (by rw [hlocate, hstart])
  refine ⟨hserved, ?_⟩
  rw [hserved.deallocate, hstart, hextent]
  exact if_neg (by decide)

/-- A block of 200 bytes whose holder wrote the number 64 at byte 48 of it. -/
def feigning : List Event :=
  [.act 0 (.allocate 200),
    .act 0 (.edit ⟨16, 200⟩ fun bytes =>
      bytes.take 48 ++ LittleEndian.toBytes 8 64 ++ bytes.drop 56)]

/-- A reference to the place of that number is served and the place can be given back as a block,
though no block was ever handed out there. A number that is too large for a class breaks off the
attempt to give the place back. -/
theorem reference_answered_feigned :
    (∃ p d', create "blocks" 4096 Directory.empty = (.ok p, d') ∧
      let u := (Usage.fresh p d').run feigning
      u.live = [⟨16, 200⟩] ∧ ¬(Usage.fresh p d').HandedOut feigning 64 ∧
        Served p ⟨80, 8⟩ u.memory ∧
        p.deallocate ⟨80, 8⟩ u.memory = (.ok (), p.freedMemory 0 64 u.memory)) ∧
    ∃ p d', create "blocks" 0x600000000000 Directory.empty = (.ok p, d') ∧
      let u := (Usage.fresh p d').run overfeigning
      Served p ⟨80, 8⟩ u.memory ∧
        p.deallocate ⟨80, 8⟩ u.memory = (.error (.crashed .outOfBounds), u.memory) := by
  refine ⟨?_, served_overfeigned⟩
  let p : Pool := ⟨⟨0, "blocks", 4864, true⟩, 4096, 768⟩
  let d' := (create "blocks" 4096 Directory.empty).2
  have hcreate : create "blocks" 4096 Directory.empty = (.ok p, d') := rfl
  refine ⟨p, d', hcreate, ?_⟩
  intro u
  have hp : p ∈ u.handles := Usage.mem_handles_run List.mem_cons_self feigning
  -- the block is cut at the start of the data area and takes 256 bytes; the 64 that was written
  -- stands where the size of another block would
  have hrun : u.live = [⟨16, 200⟩] ∧ p.extent u.memory 0 = 256 ∧ p.extent u.memory 64 = 64 ∧
      u.memory.load64 bumpAt = 256 := by
    decide +kernel
  obtain ⟨hlive, hblock, hextent, hbump⟩ := hrun
  have hhanded : (Usage.fresh p d').HandedOut feigning 0 := by
    refine ⟨feigning, List.prefix_rfl, ?_⟩
    show 0 ∈ u.live.map BlockRef.start
    rw [hlive]
    decide
  have hfeigned : Feigned p u.memory 0 64 := by
    refine ⟨by decide, ?_, by decide, ?_, ?_, ?_⟩
    · rw [hblock]
      decide
    · rw [hextent]
      exact ⟨6, rfl⟩
    · rw [hextent]
      decide
    · rw [hextent, hbump]
      decide
  have hserved : Served p ⟨80, 8⟩ u.memory := by
    refine (reference_answered hcreate feigning ⟨80, 8⟩ p hp).1 ⟨?_, ?_⟩
    · exact hextent.ge.trans' (by decide)
    · exact .inr ⟨0, hhanded, hfeigned⟩
  refine ⟨hlive, ?_, hserved, ?_⟩
  · rintro ⟨earlier, hprefix, h⟩
    have hearlier : earlier = [] ∨ earlier = feigning.take 1 ∨ earlier = feigning := by
      simpa [feigning] using (List.mem_inits ..).2 hprefix
    have hfirst : ((Usage.fresh p d').run (feigning.take 1)).live = [⟨16, 200⟩] := by
      decide +kernel
    rcases hearlier with rfl | rfl | rfl
    · cases h
    · rw [hfirst] at h
      exact absurd h (by decide)
    · change 64 ∈ u.live.map BlockRef.start at h
      rw [hlive] at h
      exact absurd h (by decide)
  · have hstart : (⟨80, 8⟩ : BlockRef).start = 64 := by decide
    have hclass : sizeClass 64 = 0 := sizeClass_classBytes 0
    rw [hserved.deallocate, hstart, hextent, hclass]
    exact if_pos (by decide)

end SharedExchange.Pool
