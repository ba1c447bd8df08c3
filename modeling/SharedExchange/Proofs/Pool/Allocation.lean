import Mathlib.Tactic
import SharedExchange.Proofs.Pool.Blocks

/-! # Allocation over a divided data area

`Sound` is what a pool promises the holders of its references: the data area is divided, the blocks
of the references are those in use, and each reference asks for no more than its block has.
Handing out a block, giving one back and writing into one keep it (`Sound.allocate`,
`Sound.freed`, `Sound.store`). -/

namespace SharedExchange

/-- The bytes of a reference lie in its block behind the header of the block. -/
structure BlockRef.Within (p : Pool) (m : Memory) (b : BlockRef) : Prop where
  offset_eq : b.offset.toNat = b.start.toNat + Pool.blockHeader
  size_le : b.size.toNat + Pool.blockHeader ≤ p.extent m b.start

namespace Pool

/-- The data area is divided, with the blocks of the references `live` in use. -/
def Sound (p : Pool) (m : Memory) (live : List BlockRef) : Prop :=
  ∃ blocks stack, Divided p m (live.map BlockRef.start) blocks stack ∧ ∀ b ∈ live, b.Within p m

variable {p : Pool} {m m' : Memory} {taken blocks : List UInt64} {stack : Nat → List UInt64}
  {start n : UInt64} {b : BlockRef} {live : List BlockRef} {c : Nat}

/-- Another hold on the object makes no difference to a pool. -/
theorem Sound.reattach (a : Attachment) (h : Sound p m live) :
    Sound { p with attachment := a } m live := by
  obtain ⟨blocks, stack, hdiv, hwithin⟩ := h
  exact ⟨blocks, stack, hdiv.reattach a, fun b hb => ⟨(hwithin b hb).1, (hwithin b hb).2⟩⟩

/-- The references in use lie within their blocks. -/
theorem Sound.within (h : Sound p m live) : ∀ b ∈ live, b.Within p m := by
  obtain ⟨-, -, -, hwithin⟩ := h
  exact hwithin

/-- The order of the blocks in use does not matter to a pool. -/
theorem Sound.perm {live' : List BlockRef} (h : Sound p m live) (hperm : live.Perm live') :
    Sound p m live' := by
  obtain ⟨blocks, stack, hdiv, hwithin⟩ := h
  exact ⟨blocks, stack, hdiv.perm_taken (hperm.map _),
    fun b hb => hwithin b (hperm.mem_iff.2 hb)⟩

/-- In a sound pool there is room behind the cursor for a block of any class, as far as words go. -/
theorem Sound.ample (hp : Proper p) (h : Sound p m live) : Ample m := by
  obtain ⟨blocks, stack, hdiv, -⟩ := h
  exact hdiv.ample hp

/-- The blocks of different references share no byte, their headers included. -/
theorem Sound.apart (h : Sound p m live) :
    live.Pairwise fun a b => a.start.toNat + p.extent m a.start ≤ b.start.toNat ∨
      b.start.toNat + p.extent m b.start ≤ a.start.toNat := by
  obtain ⟨blocks, stack, hdiv, -⟩ := h
  have hnodup : (live.map BlockRef.start).Nodup := (List.nodup_append.1 hdiv.nodup).1
  have hne : live.Pairwise fun a b => a.start ≠ b.start := List.pairwise_map.1 hnodup
  exact hne.imp_of_mem fun ha hb hab => hdiv.apart
    (hdiv.mem_of_taken (List.mem_map_of_mem ha)) (hdiv.mem_of_taken (List.mem_map_of_mem hb)) hab

/-! ## Finding a block for a request -/

/-- A request is served by a class that has room for it and a header. -/
theorem requestClass?_eq_some (h : p.requestClass? n = some c) :
    c < classCount ∧ n.toNat + blockHeader ≤ classBytes c := by
  rw [requestClass?] at h
  split at h
  · cases h
  · split at h
    · next hc =>
      cases h
      exact ⟨hc, le_classBytes_sizeClass _⟩
    · cases h

/-- The chain of a class says what taking its top block does. -/
theorem Divided.pop?_eq (h : Divided p m taken blocks stack) (hc : c < classCount) :
    p.pop? c m = (stack c).head?.map fun top =>
      (top, m.store64 (headAt c) (m.load64 (p.linkAt top))) := by
  have hchain := h.linked c hc
  rw [pop?]
  cases hs : stack c with
  | nil =>
    rw [hs] at hchain
    have htop : m.load64 (headAt c) = nil := hchain
    simp [htop]
  | cons top rest =>
    rw [hs] at hchain
    obtain ⟨htop, hne, -⟩ := hchain
    simp [htop, hne]

/-- What a request is given: a block that was not in use, large enough for its class. -/
structure Given (p : Pool) (m m' : Memory) (taken : List UInt64) (start : UInt64) (c : Nat) :
    Prop where
  divided : ∃ blocks stack, Divided p m' (start :: taken) blocks stack
  roomy : classBytes c ≤ p.extent m' start
  kept : ∀ a ∈ taken, p.extent m' a = p.extent m a

/-- Writing to the counters in the header keeps what was given. -/
theorem Given.store64 (hp : Based p) (h : Given p m m' taken start c) {position : Nat}
    (word : UInt64) (hlow : bumpAt + 8 ≤ position) (hhigh : position + 8 ≤ headAt 0) :
    Given p m (m'.store64 position word) taken start c := by
  obtain ⟨blocks, stack, hdiv⟩ := h.divided
  have hheads : headAt 0 ≤ signature.headerSize := by decide
  have hextent : ∀ a, p.extent (m'.store64 position word) a = p.extent m' a := fun a =>
    extent_store64 hp (by omega)
  refine ⟨⟨blocks, stack, hdiv.count hp word hlow hhigh⟩, ?_, ?_⟩
  · rw [hextent]
    exact h.roomy
  · intro a ha
    rw [hextent, h.kept a ha]

/-- Counting a hit keeps what was given. -/
theorem Given.countHit (hp : Based p) (h : Given p m m' taken start c) :
    Given p m (countHit (start, m')).2 taken start c :=
  h.store64 hp _ (by decide) (by decide)

/-- A block off the chain of a class suits a request of that class or a smaller one. -/
theorem Divided.given_of_pop (hp : Based p) (h : Divided p m taken blocks stack)
    (hc : c < classCount) {d : Nat} (hd : d ≤ c) (hpop : p.pop? c m = some (start, m')) :
    Given p m m' taken start d := by
  rw [h.pop?_eq hc] at hpop
  obtain ⟨top, htop, heq⟩ := Option.map_eq_some_iff.1 hpop
  cases heq
  obtain ⟨rest, hs⟩ := List.head?_eq_some_iff.1 htop
  have hsizes : ∀ a, p.extent (m.store64 (headAt c) (m.load64 (p.linkAt start))) a =
      p.extent m a := fun a => extent_store64 hp (headAt_le hc)
  refine ⟨⟨blocks, _, h.pop hp hc hs⟩, ?_, fun a _ => hsizes a⟩
  rw [hsizes, extent_eq hc (h.classed c hc start (by rw [hs]; exact List.mem_cons_self)),
    classBytes, classBytes]
  exact Nat.mul_le_mul_left _ (Nat.pow_le_pow_right (by decide) hd)

/-- A block that was cut off is given. -/
theorem Divided.given_of_cut (hp : Based p) (h : Divided p m taken blocks stack)
    (hample : Ample m) (hc : c < classCount) (hcut : p.cut? c m = some (start, m')) :
    Given p m m' taken start c := by
  rw [cut?_eq] at hcut
  split at hcut
  · cases hcut
  · next hroom =>
    obtain ⟨rfl, rfl⟩ := Prod.mk.inj (Option.some.inj hcut)
    refine ⟨⟨_, stack, h.cut hp hample hc hroom⟩, ?_, ?_⟩
    · rw [extent_eq hc blockSize_cutMemory]
    · intro a ha
      exact extent_congr (h.blockSize_cutMemory_of_mem hp (h.mem_of_taken ha))

/-- Where a block for a request is found: at the cursor, or on the chain of its class or of a larger
one. -/
theorem place?_eq_some {found : UInt64 × Memory} (hc : c < classCount)
    (h : p.place? c m = some found) :
    p.cut? c m = some found ∨
      ∃ d, c ≤ d ∧ d < classCount ∧
        ∃ popped, p.pop? d m = some popped ∧ countHit popped = found := by
  rw [place?] at h
  split at h
  · next popped hpop => exact .inr ⟨c, Nat.le_refl c, hc, popped, hpop, Option.some.inj h⟩
  · split at h
    · next cut hcut => exact .inl (hcut.trans h)
    · obtain ⟨popped, hfound, heq⟩ := Option.map_eq_some_iff.1 h
      obtain ⟨d, hd, hpop⟩ := List.exists_of_findSome?_eq_some hfound
      obtain ⟨hlow, hhigh⟩ := List.mem_range'_1.1 hd
      exact .inr ⟨d, by omega, by omega, popped, hpop, heq⟩

/-- Wherever a block is found, it suits the request. -/
theorem Divided.given_of_place (hp : Based p) (h : Divided p m taken blocks stack)
    (hample : Ample m) (hc : c < classCount) (hplace : p.place? c m = some (start, m')) :
    Given p m m' taken start c := by
  obtain hcut | ⟨d, hle, hd, ⟨top, popped⟩, hpop, heq⟩ := place?_eq_some hc hplace
  · exact h.given_of_cut hp hample hc hcut
  · obtain ⟨rfl, rfl⟩ := Prod.mk.inj heq
    exact (h.given_of_pop hp hd hle hpop).countHit hp

/-! ## Handing out a block -/

/-- A refused request changes nothing. -/
theorem allocate_error {fault : Fault} (h : p.allocate n m = (.error fault, m')) : m' = m := by
  rw [allocate] at h
  split at h <;> cases h
  rfl

/-- A block that was allocated is given, and has room for what was asked for. -/
theorem Divided.given_of_allocate (hp : Based p) (h : Divided p m taken blocks stack)
    (hample : Ample m) (halloc : p.allocate n m = (.ok b, m')) :
    b.size = n ∧ ∃ c, n.toNat + blockHeader ≤ classBytes c ∧
      b.offset = b.start + UInt64.ofNat blockHeader ∧ Given p m m' taken b.start c := by
  rw [allocate] at halloc
  split at halloc
  · cases halloc
  · next start placed hplace =>
    cases halloc
    obtain ⟨c, hrequest, hfound⟩ := Option.bind_eq_some_iff.1 hplace
    obtain ⟨hc, hroom⟩ := requestClass?_eq_some hrequest
    have hstart : (⟨start + UInt64.ofNat blockHeader, n⟩ : BlockRef).start = start :=
      UInt64.add_sub_cancel ..
    have hgiven := h.given_of_place hp hample hc hfound
    rw [hstart]
    refine ⟨rfl, c, hroom, rfl, ?_⟩
    exact (hgiven.store64 hp _ (by decide) (by decide)).store64 hp _ (by decide) (by decide)

/-- Handing out a block keeps a pool sound. -/
theorem Sound.allocate (hp : Based p) (h : Sound p m live) (hample : Ample m)
    (halloc : p.allocate n m = (.ok b, m')) : Sound p m' (b :: live) := by
  obtain ⟨blocks, stack, hdiv, hwithin⟩ := h
  obtain ⟨hsize, c, hroom, hoffset, hgiven⟩ := hdiv.given_of_allocate hp hample halloc
  obtain ⟨blocks', stack', hdiv'⟩ := hgiven.divided
  have hbounds := hdiv'.tiles.bounds (hdiv'.mem_of_taken List.mem_cons_self)
  have hbump := (m'.load64 bumpAt).toNat_lt
  have hroomy := hgiven.roomy
  refine ⟨blocks', stack', hdiv', ?_⟩
  intro a ha
  rcases List.mem_cons.1 ha with rfl | ha
  · -- the new reference: its block has the room that was asked for
    have hasked : a.size.toNat = n.toNat := congrArg UInt64.toNat hsize
    refine ⟨?_, by omega⟩
    have hlt : a.start.toNat + blockHeader < 2 ^ 64 := by omega
    rw [hoffset, UInt64.toNat_add]
    exact Nat.mod_eq_of_lt hlt
  · -- the others: their blocks keep their sizes
    have hold := hwithin a ha
    refine ⟨hold.offset_eq, ?_⟩
    rw [hgiven.kept _ (List.mem_map_of_mem ha)]
    exact hold.size_le

/-! ## Reaching the block of a reference -/

/-- When a reference is taken for one to a block. -/
theorem locate?_eq_some_iff : p.locate? b m = some start ↔
    blockHeader ≤ b.offset.toNat ∧ b.start.toNat % minBlock = 0 ∧ b.start < m.load64 bumpAt ∧
      (p.blockSize b.start m).toNat.isPowerOfTwo ∧ minBlock ≤ p.extent m b.start ∧
      b.start + p.blockSize b.start m ≤ m.load64 bumpAt ∧
      b.size.toNat ≤ p.extent m b.start - blockHeader ∧ b.start = start := by
  have hstart : b.offset - UInt64.ofNat blockHeader = b.start := rfl
  rw [locate?]
  simp only [hstart]
  -- the three tests that can end in a refusal follow each other
  by_cases hoffset : b.offset.toNat < blockHeader
  · rw [if_pos hoffset]
    constructor
    · intro h
      cases h
    · intro h
      omega
  rw [if_neg hoffset]
  by_cases hplace : (b.start.toNat % minBlock != 0 || m.load64 bumpAt ≤ b.start) = true
  · rw [if_pos hplace]
    simp only [Bool.or_eq_true, bne_iff_ne, ne_eq, decide_eq_true_eq] at hplace
    constructor
    · intro h
      cases h
    · rintro ⟨-, haligned, hbelow, -⟩
      rcases hplace with hplace | hplace
      · exact absurd haligned hplace
      · exact absurd hbelow (UInt64.not_lt.2 hplace)
  rw [if_neg hplace]
  simp only [Bool.or_eq_true, bne_iff_ne, ne_eq, decide_eq_true_eq, not_or, not_not] at hplace
  obtain ⟨haligned, hbelow⟩ := hplace
  rw [Option.ite_none_left_eq_some, Option.some_inj]
  simp only [not_or, not_not, Nat.not_lt, UInt64.not_lt, UInt64.not_le] at *
  exact ⟨fun h => ⟨hoffset, haligned, hbelow, h.1.1, h.1.2.1, h.1.2.2.1, h.1.2.2.2, h.2⟩,
    fun h => ⟨⟨h.2.2.2.1, h.2.2.2.2.1, h.2.2.2.2.2.1, h.2.2.2.2.2.2.1⟩, h.2.2.2.2.2.2.2⟩⟩

/-- The reference to a block in use is recognised. -/
theorem Divided.locate_of_taken (h : Divided p m taken blocks stack) (hb : b.start ∈ taken)
    (hwithin : b.Within p m) : p.locate b m = .ok b.start := by
  have hmem := h.mem_of_taken hb
  have hbounds := h.tiles.bounds hmem
  have hmin := h.tiles.minBlock_le hmem
  have hoffset := hwithin.offset_eq
  have hfits := hwithin.size_le
  have hbump := (m.load64 bumpAt).toNat_lt
  have hpos : 0 < minBlock := by decide
  obtain ⟨c, hc, hsize⟩ := h.tiles.class_of_mem hmem
  have hextent : (p.blockSize b.start m).toNat = p.extent m b.start := rfl
  -- the end of the block that is computed is the true one
  have hend : (b.start + p.blockSize b.start m).toNat =
      b.start.toNat + p.extent m b.start := by
    rw [UInt64.toNat_add, hextent]
    exact Nat.mod_eq_of_lt (by omega)
  have hlocate : p.locate? b m = some b.start := by
    refine locate?_eq_some_iff.2 ⟨by omega, h.tiles.aligned rfl hmem, ?_, ?_, hmin, ?_, by omega,
      rfl⟩
    · rw [UInt64.lt_iff_toNat_lt]
      omega
    · rw [hextent, extent_eq hc hsize]
      exact isPowerOfTwo_classBytes c
    · rw [UInt64.le_iff_toNat_le, hend]
      exact hbounds.2
  rw [locate, hlocate]

/-- A reference in use is located at its start. -/
theorem Sound.locate (h : Sound p m live) (hb : b ∈ live) : p.locate b m = .ok b.start := by
  obtain ⟨blocks, stack, hdiv, hwithin⟩ := h
  exact hdiv.locate_of_taken (List.mem_map_of_mem hb) (hwithin b hb)

/-- What giving back a block does to the memory. -/
def freedMemory (p : Pool) (c : Nat) (start : UInt64) (m : Memory) : Memory :=
  ((p.push c start m).modify64 deallocationsAt (· + 1)).modify64 freedBytesAt
    (· + p.blockSize start m)

/-- Freeing what is located puts it on the stack of its class. -/
theorem deallocate_of_locate (hlocate : p.locate b m = .ok start) (hc : c < classCount)
    (hsize : p.blockSize start m = classSize c) :
    p.deallocate b m = (.ok (), p.freedMemory c start m) := by
  have hclass : sizeClass (p.blockSize start m).toNat = c := by
    rw [hsize, toNat_classSize hc, sizeClass_classBytes]
  rw [deallocate, hlocate]
  simp only [hclass]
  exact if_neg (Nat.not_le.2 hc)

/-- Freeing a block keeps the extents of all. -/
theorem Divided.extent_freedMemory (hp : Based p) (h : Divided p m taken blocks stack)
    (hc : c < classCount) (hstart : start ∈ blocks) {a : UInt64} (ha : a ∈ blocks) :
    p.extent (p.freedMemory c start m) a = p.extent m a := by
  rw [freedMemory, Memory.modify64, extent_store64 hp (by decide), Memory.modify64,
    extent_store64 hp (by decide)]
  exact extent_congr (h.blockSize_push hp hc hstart ha)

/-- A block that is freed goes from the taken ones to the stack of its class. -/
theorem Divided.free (hp : Based p) (h : Divided p m (start :: taken) blocks stack)
    (hc : c < classCount) (hsize : p.blockSize start m = classSize c) :
    Divided p (p.freedMemory c start m) taken blocks
      (Function.update stack c (start :: stack c)) := by
  have hpushed := h.push hp hc hsize
  simp only [freedMemory, Memory.modify64]
  exact (hpushed.count hp _ (by decide) (by decide)).count hp _ (by decide) (by decide)

/-- Giving back a block in use succeeds. -/
theorem Sound.deallocate_eq (h : Sound p m live) (hb : b ∈ live) :
    ∃ c < classCount, p.blockSize b.start m = classSize c ∧
      p.deallocate b m = (.ok (), p.freedMemory c b.start m) := by
  have hlocate := h.locate hb
  obtain ⟨blocks, stack, hdiv, -⟩ := h
  obtain ⟨c, hc, hsize⟩ := hdiv.tiles.class_of_mem (hdiv.mem_of_taken (List.mem_map_of_mem hb))
  exact ⟨c, hc, hsize, deallocate_of_locate hlocate hc hsize⟩

/-- Giving back a block in use keeps the pool sound without it. -/
theorem Sound.freed (hp : Based p) (h : Sound p m live) (hb : b ∈ live) (hc : c < classCount)
    (hsize : p.blockSize b.start m = classSize c) :
    Sound p (p.freedMemory c b.start m) (live.erase b) := by
  obtain ⟨blocks, stack, hdiv, hwithin⟩ := h
  have hmem := hdiv.mem_of_taken (List.mem_map_of_mem hb)
  have hperm : (live.map BlockRef.start).Perm (b.start :: (live.erase b).map BlockRef.start) :=
    (List.perm_cons_erase hb).map _
  refine ⟨blocks, _, (hdiv.perm_taken hperm).free hp hc hsize, ?_⟩
  intro a ha
  -- the references that stay: their blocks keep their sizes
  have halive := List.mem_of_mem_erase ha
  have hold := hwithin a halive
  refine ⟨hold.offset_eq, ?_⟩
  rw [hdiv.extent_freedMemory hp hc hmem (hdiv.mem_of_taken (List.mem_map_of_mem halive))]
  exact hold.size_le

/-! ## Writing into a block -/

/-- Writing at most the bytes of a reference to a block in use keeps a pool sound. -/
theorem Sound.store (hp : Based p) (h : Sound p m live) (hb : b ∈ live) {bytes : List UInt8}
    (hlength : bytes.length ≤ b.size.toNat) : Sound p (m.store (p.bytesAt b) bytes) live := by
  obtain ⟨blocks, stack, hdiv, hwithin⟩ := h
  have htaken := List.mem_map_of_mem (f := BlockRef.start) hb
  -- the bytes lie behind the header of the block and inside it
  have hlow : p.blockAt b.start + blockHeader ≤ p.bytesAt b := by
    rw [bytesAt, blockAt, blockAt, (hwithin b hb).offset_eq]
    omega
  have hhigh : p.bytesAt b + bytes.length ≤ p.blockAt b.start + p.extent m b.start := by
    have hfits := (hwithin b hb).size_le
    rw [bytesAt, blockAt, blockAt, (hwithin b hb).offset_eq]
    omega
  have hdata := hp.header_le
  refine ⟨blocks, stack, hdiv.store_inside hp htaken hlow hhigh, ?_⟩
  intro a ha
  have hold := hwithin a ha
  refine ⟨hold.offset_eq, ?_⟩
  rw [extent_congr (hdiv.blockSize_store_inside htaken hlow hhigh
    (hdiv.mem_of_taken (List.mem_map_of_mem ha)))]
  exact hold.size_le

/-- Copying bytes into a block writes no more than the reference asks for, if anything. -/
theorem write_eq_store (p : Pool) (b : BlockRef) (bytes : List UInt8) (m : Memory) :
    ∃ stored : List UInt8, stored.length ≤ b.size.toNat ∧
      (p.write b bytes m).2 = m.store (p.bytesAt b) stored := by
  rw [write]
  split
  · exact ⟨[], Nat.zero_le _, rfl⟩
  · split
    · exact ⟨[], Nat.zero_le _, rfl⟩
    · next hlength => exact ⟨bytes, Nat.not_lt.1 hlength, rfl⟩

/-- Changing the bytes of a block in place writes no more than the reference asks for. -/
theorem edit_eq_store {α : Type} (p : Pool) (b : BlockRef)
    (f : List UInt8 → Except Fault α × List UInt8) (m : Memory) :
    ∃ stored : List UInt8, stored.length ≤ b.size.toNat ∧
      (p.edit b f m).2 = m.store (p.bytesAt b) stored := by
  rw [edit]
  split
  · exact ⟨[], Nat.zero_le _, rfl⟩
  · exact ⟨_, List.length_take_le .., rfl⟩

end Pool
end SharedExchange
