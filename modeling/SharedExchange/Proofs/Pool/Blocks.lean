import Mathlib.Tactic
import SharedExchange.Proofs.Pool.Division

/-! # What the operations on blocks do to a division

One lemma for each way in which the memory of a pool is changed: a counter is moved
(`Divided.count`), a block is taken off a chain (`Divided.pop`), put on one (`Divided.push`) or
newly cut (`Divided.cut`), and bytes are written inside a block (`Divided.store_inside`). Where a
chain changes, the others and the blocks stay (`Divided.restack`). -/

namespace SharedExchange.Pool

/-- Lengthening one list by an element lengthens the lists together by it. -/
theorem perm_flatMap_update_cons {α : Type} (f : Nat → List α) {c n : Nat} (hc : c < n) (a : α)
    (as : List α) :
    ((List.range n).flatMap (Function.update f c (a :: as))).Perm
      (a :: (List.range n).flatMap (Function.update f c as)) := by
  -- on the number of lists: the one that is lengthened is among the first ones, or the last
  induction n with
  | zero => omega
  | succ n ih =>
    rw [List.range_succ, List.flatMap_append, List.flatMap_append]
    by_cases hcn : c < n
    · have hlast : ∀ bs, Function.update f c bs n = f n := fun bs =>
        Function.update_of_ne (by omega) ..
      simp only [List.flatMap_singleton, hlast]
      exact (ih hcn).append_right _
    · obtain rfl : c = n := by omega
      have hfront : ∀ bs, (List.range c).flatMap (Function.update f c bs) =
          (List.range c).flatMap f := fun bs =>
        List.flatMap_congr fun i hi =>
          Function.update_of_ne (Nat.ne_of_lt (List.mem_range.1 hi)) ..
      simp only [List.flatMap_singleton, hfront, Function.update_self]
      exact List.perm_middle

/-- The top of a chain stands inside the header. -/
theorem headAt_le {c : Nat} (hc : c < classCount) : headAt c + 8 ≤ signature.headerSize := by
  simp only [headAt, classCount, signature] at *
  omega

/-- Writing into the header of the pool leaves the headers of its blocks alone. -/
theorem blockSize_store64 {p : Pool} {m : Memory} {b word : UInt64} {position : Nat}
    (hp : Based p) (h : position + 8 ≤ signature.headerSize) :
    p.blockSize b (m.store64 position word) = p.blockSize b m := by
  have hdata := hp.header_le
  exact Memory.load64_store64_of_disjoint _ _ (.inr (by rw [blockAt]; omega))

/-- Words of the header do not matter to the extent of a block. -/
theorem extent_store64 {p : Pool} {m : Memory} {b word : UInt64} {position : Nat}
    (hp : Based p) (h : position + 8 ≤ signature.headerSize) :
    p.extent (m.store64 position word) b = p.extent m b :=
  extent_congr (blockSize_store64 hp h)

namespace Divided

variable {p : Pool} {m : Memory} {taken blocks : List UInt64} {stack : Nat → List UInt64}
  {b : UInt64} {c : Nat}

/-- Moving a counter of the header leaves the division alone. -/
theorem count (hp : Based p) (h : Divided p m taken blocks stack) {position : Nat} (word : UInt64)
    (hlow : bumpAt + 8 ≤ position) (hhigh : position + 8 ≤ headAt 0) :
    Divided p (m.store64 position word) taken blocks stack := by
  have hdata := hp.header_le
  simp only [bumpAt, headAt, signature] at hlow hhigh hdata
  refine h.of_same ?_ ?_ ?_ ?_ ?_ ?_
  · exact Memory.load64_store64_of_disjoint _ _ (.inl (by rw [sizeAt]; omega))
  · exact Memory.load64_store64_of_disjoint _ _ (.inl (by rw [dataStartAt]; omega))
  · exact Memory.load64_store64_of_disjoint _ _ (.inl (by rw [bumpAt]; omega))
  · intro c _
    exact Memory.load64_store64_of_disjoint _ _ (.inr (by rw [headAt]; omega))
  · intro b _
    exact Memory.load64_store64_of_disjoint _ _ (.inr (by rw [blockAt]; omega))
  · intro b _
    exact Memory.load64_store64_of_disjoint _ _ (.inr (by rw [linkAt, blockAt]; omega))

/-- A division in which one chain is another one afterwards: the words of the header but for its
top are the same, the sizes of all blocks and the other chains are too, and every block has a place
again. -/
theorem restack (h : Divided p m taken blocks stack) {m' : Memory} {taken' chain : List UInt64}
    (hheader : ∀ position, position + 8 ≤ headAt 0 → m'.load64 position = m.load64 position)
    (hheads : ∀ d < classCount, d ≠ c → m'.load64 (headAt d) = m.load64 (headAt d))
    (hsizes : ∀ a ∈ blocks, p.blockSize a m' = p.blockSize a m)
    (hlinks : ∀ d < classCount, ∀ a ∈ stack d, m'.load64 (p.linkAt a) = m.load64 (p.linkAt a))
    (hlinked : Linked p m' (m'.load64 (headAt c)) chain)
    (hclassed : ∀ a ∈ chain, p.blockSize a m' = classSize c)
    (hplaces : blocks.Perm
      (taken' ++ (List.range classCount).flatMap (Function.update stack c chain))) :
    Divided p m' taken' blocks (Function.update stack c chain) := by
  have hbump : m'.load64 bumpAt = m.load64 bumpAt := hheader bumpAt (by decide)
  constructor
  case size_eq => exact (hheader sizeAt (by decide)).trans h.size_eq
  case dataStart_eq => exact (hheader dataStartAt (by decide)).trans h.dataStart_eq
  case tiles =>
    rw [hbump]
    exact h.tiles.congr hsizes
  case bump_le =>
    rw [hbump]
    exact h.bump_le
  case linked =>
    intro d hd
    by_cases hdc : d = c
    · subst hdc
      rwa [Function.update_self]
    · rw [hheads d hd hdc, Function.update_of_ne hdc]
      exact (h.linked d hd).congr (hlinks d hd)
  case classed =>
    intro d hd a ha
    by_cases hdc : d = c
    · subst hdc
      rw [Function.update_self] at ha
      exact hclassed a ha
    · rw [Function.update_of_ne hdc] at ha
      rw [hsizes a (h.mem_of_stack hd ha), h.classed d hd a ha]
  case places => exact hplaces

/-- Taking the top block off the chain of a class. -/
theorem pop (hp : Based p) (h : Divided p m taken blocks stack) (hc : c < classCount)
    {rest : List UInt64} (hs : stack c = b :: rest) :
    Divided p (m.store64 (headAt c) (m.load64 (p.linkAt b))) (b :: taken) blocks
      (Function.update stack c rest) := by
  have hdata := hp.header_le
  have hhead := headAt_le hc
  -- only the top of one chain is written
  have hsizes : ∀ a, p.blockSize a (m.store64 (headAt c) (m.load64 (p.linkAt b))) =
      p.blockSize a m := fun a => blockSize_store64 hp hhead
  have hlinks : ∀ a, (m.store64 (headAt c) (m.load64 (p.linkAt b))).load64 (p.linkAt a) =
      m.load64 (p.linkAt a) := fun a =>
    Memory.load64_store64_of_disjoint _ _ (.inr (by rw [linkAt, blockAt]; omega))
  have hchain := h.linked c hc
  rw [hs] at hchain
  refine h.restack (fun position hlow => ?_) (fun d hd hdc => ?_) (fun a _ => hsizes a)
    (fun d hd a _ => hlinks a) ?_ (fun a ha => ?_) ?_
  · exact Memory.load64_store64_of_disjoint _ _ (.inl (by rw [headAt] at hlow ⊢; omega))
  · exact Memory.load64_store64_of_disjoint _ _ (by rw [headAt, headAt]; omega)
  · -- the chain of the class goes on from its second block
    rw [Memory.load64_store64_same]
    exact hchain.2.2.congr fun a _ => hlinks a
  · rw [hsizes a, h.classed c hc a (hs ▸ List.mem_cons_of_mem _ ha)]
  · -- one block moves from its chain to those in use
    have hstack := perm_flatMap_update_cons stack hc b rest
    rw [← hs, Function.update_eq_self] at hstack
    refine h.places.trans ((hstack.append_left taken).trans ?_)
    exact List.perm_middle

/-- No block starts where the mark for the end of a chain would be. -/
theorem ne_nil (h : Divided p m taken blocks stack) (hb : b ∈ blocks) :
    b ≠ nil := by
  have hbounds := h.tiles.bounds hb
  have hmin := h.tiles.minBlock_le hb
  have hbump := (m.load64 bumpAt).toNat_lt
  rw [minBlock] at hmin
  -- the mark is the largest word, so no block would end at a word
  intro heq
  have hnil : b.toNat = 0xffffffffffffffff := by
    rw [heq]
    rfl
  omega

/-- No block is taken or stacked twice. -/
theorem nodup (h : Divided p m taken blocks stack) :
    (taken ++ (List.range classCount).flatMap stack).Nodup :=
  h.places.nodup_iff.1 h.tiles.nodup

/-- A block in use is on no chain. -/
theorem not_mem_stack (h : Divided p m taken blocks stack) (hb : b ∈ taken)
    (hc : c < classCount) : b ∉ stack c := fun hbc =>
  (List.nodup_append.1 h.nodup).2.2 b hb b
    (List.mem_flatMap.2 ⟨c, List.mem_range.2 hc, hbc⟩) rfl

/-- The two words of bookkeeping of different blocks lie apart. -/
theorem blockAt_apart (h : Divided p m taken blocks stack) {a : UInt64} (ha : a ∈ blocks)
    (hb : b ∈ blocks) (hab : a ≠ b) :
    p.blockAt a + minBlock ≤ p.blockAt b ∨ p.blockAt b + minBlock ≤ p.blockAt a := by
  have hsizea := h.tiles.minBlock_le ha
  have hsizeb := h.tiles.minBlock_le hb
  have hapart := h.apart ha hb hab
  rw [blockAt, blockAt]
  omega

/-- Only the link of the block and the top of its chain are written. -/
theorem load64_push {position : Nat}
    (hlink : position + 8 ≤ p.linkAt b ∨ p.linkAt b + 8 ≤ position)
    (hhead : position + 8 ≤ headAt c ∨ headAt c + 8 ≤ position) :
    (p.push c b m).load64 position = m.load64 position := by
  rw [Pool.push, Memory.load64_store64_of_disjoint _ _ hhead,
    Memory.load64_store64_of_disjoint _ _ hlink]

/-- Pushing a block keeps the sizes of all. -/
theorem blockSize_push (hp : Based p) (h : Divided p m taken blocks stack) (hc : c < classCount)
    (hb : b ∈ blocks) {a : UInt64} (ha : a ∈ blocks) :
    p.blockSize a (p.push c b m) = p.blockSize a m := by
  have hdata := hp.header_le
  have hhead := headAt_le hc
  refine load64_push ?_ (.inr (by rw [blockAt]; omega))
  by_cases hab : a = b
  · exact .inl (by rw [linkAt, hab])
  · have hapart := h.blockAt_apart ha hb hab
    rw [minBlock] at hapart
    rw [linkAt]
    omega

/-- Putting a block in use on the chain of its class. -/
theorem push (hp : Based p) (h : Divided p m (b :: taken) blocks stack) (hc : c < classCount)
    (hsize : p.blockSize b m = classSize c) :
    Divided p (p.push c b m) taken blocks (Function.update stack c (b :: stack c)) := by
  have hdata := hp.header_le
  have hhead := headAt_le hc
  have hb : b ∈ blocks := h.mem_of_taken List.mem_cons_self
  have hbehind : signature.headerSize ≤ p.linkAt b := by
    rw [linkAt, blockAt]
    omega
  have hsizes : ∀ a ∈ blocks, p.blockSize a (p.push c b m) = p.blockSize a m := fun a ha =>
    h.blockSize_push hp hc hb ha
  -- the block was in use, so no chain leads through it
  have hlinks : ∀ d < classCount, ∀ a ∈ stack d,
      (p.push c b m).load64 (p.linkAt a) = m.load64 (p.linkAt a) := by
    intro d hd a ha
    refine load64_push ?_ (.inr (by rw [linkAt, blockAt]; omega))
    have hab : a ≠ b := fun heq =>
      h.not_mem_stack List.mem_cons_self hd (heq ▸ ha)
    have hapart := h.blockAt_apart (h.mem_of_stack hd ha) hb hab
    rw [minBlock] at hapart
    rw [linkAt, linkAt]
    omega
  refine h.restack (fun position hlow => ?_) (fun d hd hdc => ?_) hsizes hlinks ?_
    (fun a ha => ?_) ?_
  · rw [headAt] at hlow
    exact load64_push (.inl (by rw [headAt] at hhead; omega)) (.inl (by rw [headAt]; omega))
  · have hother := headAt_le hd
    exact load64_push (.inl (by omega)) (by rw [headAt, headAt]; omega)
  · -- the block is the new top, and its link leads to the old one
    have htop : (p.push c b m).load64 (headAt c) = b := Memory.load64_store64_same ..
    have hnext : (p.push c b m).load64 (p.linkAt b) = m.load64 (headAt c) := by
      rw [Pool.push, Memory.load64_store64_of_disjoint _ _ (.inr (by omega)),
        Memory.load64_store64_same]
    rw [htop]
    refine ⟨rfl, h.ne_nil hb, ?_⟩
    rw [hnext]
    exact (h.linked c hc).congr (hlinks c hc)
  · rcases List.mem_cons.1 ha with rfl | ha
    · rw [hsizes _ hb, hsize]
    · rw [hsizes a (h.mem_of_stack hc ha), h.classed c hc a ha]
  · -- one block moves from those in use to its chain
    have hstack := perm_flatMap_update_cons stack hc b (stack c)
    rw [Function.update_eq_self] at hstack
    exact h.places.trans (List.perm_middle.symm.trans (hstack.symm.append_left taken))

/-- The header of a block is in front of the bytes of that block and outside all other blocks. -/
theorem load64_store_inside (h : Divided p m taken blocks stack) (hb : b ∈ taken)
    {position : Nat} {bytes : List UInt8} (hlow : p.blockAt b + blockHeader ≤ position)
    (hhigh : position + bytes.length ≤ p.blockAt b + p.extent m b) {a : UInt64} (ha : a ∈ blocks)
    {word : Nat} (hfrom : p.blockAt a ≤ word) (hto : word + 8 ≤ p.blockAt a + blockHeader) :
    (m.store position bytes).load64 word = m.load64 word := by
  simp only [blockHeader, blockAt] at hlow hhigh hfrom hto
  refine Memory.load64_store_of_disjoint _ ?_
  by_cases hab : a = b
  · -- the header of the block itself lies in front of the bytes
    subst hab
    exact .inl (by omega)
  · -- any other block lies in front of this one or behind it
    have hapart := h.apart ha (h.mem_of_taken hb) hab
    have hmin := h.tiles.minBlock_le ha
    rw [minBlock] at hmin
    omega

/-- Writing behind the header of a taken block keeps the sizes of all. -/
theorem blockSize_store_inside (h : Divided p m taken blocks stack) (hb : b ∈ taken)
    {position : Nat} {bytes : List UInt8} (hlow : p.blockAt b + blockHeader ≤ position)
    (hhigh : position + bytes.length ≤ p.blockAt b + p.extent m b) {a : UInt64}
    (ha : a ∈ blocks) : p.blockSize a (m.store position bytes) = p.blockSize a m :=
  h.load64_store_inside hb hlow hhigh ha (Nat.le_refl _) (by rw [blockHeader]; omega)

/-- Writing inside a block in use leaves the division alone. -/
theorem store_inside (hp : Based p) (h : Divided p m taken blocks stack) (hb : b ∈ taken)
    {position : Nat} {bytes : List UInt8} (hlow : p.blockAt b + blockHeader ≤ position)
    (hhigh : position + bytes.length ≤ p.blockAt b + p.extent m b) :
    Divided p (m.store position bytes) taken blocks stack := by
  have hdata := hp.header_le
  -- the header of the pool lies in front of all blocks
  have hheader : ∀ word, word + 8 ≤ signature.headerSize →
      (m.store position bytes).load64 word = m.load64 word := by
    intro word hword
    rw [blockAt] at hlow
    exact Memory.load64_store_of_disjoint _ (.inl (by omega))
  refine h.of_same (hheader _ (by decide)) (hheader _ (by decide)) (hheader _ (by decide))
    (fun c hc => hheader _ (headAt_le hc))
    (fun a ha => h.blockSize_store_inside hb hlow hhigh ha)
    (fun a ha => h.load64_store_inside hb hlow hhigh ha ?_ ?_)
  · rw [linkAt]
    omega
  · rw [linkAt, blockHeader]

end Divided

/-! ## Cutting a block -/

/-- The memory after a block of a class has been cut at the bump cursor. -/
def cutMemory (p : Pool) (c : Nat) (m : Memory) : Memory :=
  (((m.store64 bumpAt (m.load64 bumpAt + classSize c)).modify64 bumpAllocationsAt
    (· + 1)).store64 (p.blockAt (m.load64 bumpAt)) (classSize c)).store64
      (p.linkAt (m.load64 bumpAt)) nil

/-- A block is cut off at the cursor if there is room for it. -/
theorem cut?_eq (p : Pool) (c : Nat) (m : Memory) :
    p.cut? c m = if p.size < m.load64 bumpAt + classSize c then none
      else some (m.load64 bumpAt, p.cutMemory c m) := rfl

/-- Cutting a block writes the cursor, one counter and the header of the block. -/
theorem load64_cutMemory (p : Pool) (c : Nat) (m : Memory) {position : Nat}
    (hbump : position + 8 ≤ bumpAt ∨ bumpAt + 8 ≤ position)
    (hcount : position + 8 ≤ bumpAllocationsAt ∨ bumpAllocationsAt + 8 ≤ position)
    (hblock : position + 8 ≤ p.blockAt (m.load64 bumpAt) ∨
      p.blockAt (m.load64 bumpAt) + blockHeader ≤ position) :
    (p.cutMemory c m).load64 position = m.load64 position := by
  rw [blockHeader] at hblock
  rw [cutMemory, Memory.load64_store64_of_disjoint _ _ (by rw [linkAt]; omega),
    Memory.load64_store64_of_disjoint _ _ (by omega), Memory.modify64,
    Memory.load64_store64_of_disjoint _ _ hcount, Memory.load64_store64_of_disjoint _ _ hbump]

section

variable {p : Pool} {m : Memory} {taken blocks : List UInt64} {stack : Nat → List UInt64}
  {b : UInt64} {c : Nat}

/-- A block that was cut off has the size of its class. -/
@[simp] theorem blockSize_cutMemory :
    p.blockSize (m.load64 bumpAt) (p.cutMemory c m) = classSize c := by
  rw [blockSize, cutMemory, Memory.load64_store64_of_disjoint _ _ (.inl (by rw [linkAt])),
    Memory.load64_store64_same]

/-- The cursor moves behind the block that was cut off. -/
theorem load64_bump_cutMemory (hp : Based p) :
    (p.cutMemory c m).load64 bumpAt = m.load64 bumpAt + classSize c := by
  have hdata := hp.header_le
  simp only [signature] at hdata
  rw [cutMemory, Memory.load64_store64_of_disjoint _ _
      (.inl (by rw [linkAt, blockAt, bumpAt]; omega)),
    Memory.load64_store64_of_disjoint _ _ (.inl (by rw [blockAt, bumpAt]; omega)),
    Memory.modify64, Memory.load64_store64_of_disjoint _ _ (.inl (by decide)),
    Memory.load64_store64_same]

/-- The end of a block cut at the cursor. -/
theorem toNat_bump_add (hample : Ample m) (hc : c < classCount) :
    (m.load64 bumpAt + classSize c).toNat = (m.load64 bumpAt).toNat + classBytes c := by
  have hclass := classBytes_le hc
  have hsize : UInt64.size = 2 ^ 64 := rfl
  -- even the largest class leads no further than the numbers of 64 bits
  rw [Ample] at hample
  rw [UInt64.toNat_add, toNat_classSize hc]
  exact Nat.mod_eq_of_lt (by omega)

/-- The blocks cut before lie in front of the cursor, so their headers stay. -/
theorem Divided.load64_cutMemory_of_mem (h : Divided p m taken blocks stack) (hp : Based p)
    (hb : b ∈ blocks) {position : Nat} (hfrom : p.blockAt b ≤ position)
    (hto : position + 8 ≤ p.blockAt b + blockHeader) :
    (p.cutMemory c m).load64 position = m.load64 position := by
  have hdata := hp.header_le
  have hbounds := h.tiles.bounds hb
  have hmin := h.tiles.minBlock_le hb
  simp only [signature, blockAt, blockHeader, minBlock] at hdata hfrom hto hmin
  refine p.load64_cutMemory c m (.inr ?_) (.inr ?_) (.inl ?_)
  · rw [bumpAt]
    omega
  · rw [bumpAllocationsAt]
    omega
  · rw [blockAt]
    omega

/-- Cutting off a block keeps the sizes of the others. -/
theorem Divided.blockSize_cutMemory_of_mem (h : Divided p m taken blocks stack) (hp : Based p)
    (hb : b ∈ blocks) : p.blockSize b (p.cutMemory c m) = p.blockSize b m :=
  h.load64_cutMemory_of_mem hp hb (Nat.le_refl _) (by rw [blockHeader]; omega)

/-- Cutting a block at the bump cursor. -/
theorem Divided.cut (hp : Based p) (h : Divided p m taken blocks stack) (hample : Ample m)
    (hc : c < classCount) (hroom : ¬p.size < m.load64 bumpAt + classSize c) :
    Divided p (p.cutMemory c m) (m.load64 bumpAt :: taken) (blocks ++ [m.load64 bumpAt])
      stack := by
  have hdata := hp.header_le
  have hend := toNat_bump_add hample hc
  simp only [signature] at hdata
  -- of the header, only the cursor and one counter are written
  have hheader : ∀ position, position + 8 ≤ bumpAt ∨ headAt 0 ≤ position →
      position + 8 ≤ headAt classCount →
      (p.cutMemory c m).load64 position = m.load64 position := by
    intro position hat hhigh
    simp only [bumpAt, headAt, classCount] at hat hhigh
    refine p.load64_cutMemory c m ?_ ?_ (.inl (by rw [blockAt]; omega))
    · rw [bumpAt]
      omega
    · rw [bumpAllocationsAt]
      omega
  have hheads : ∀ d < classCount, headAt d + 8 ≤ headAt classCount := by
    intro d hd
    rw [headAt, headAt]
    omega
  constructor
  case size_eq => rw [hheader sizeAt (.inl (by decide)) (by decide), h.size_eq]
  case dataStart_eq => rw [hheader dataStartAt (.inl (by decide)) (by decide), h.dataStart_eq]
  case tiles =>
    rw [load64_bump_cutMemory hp, hend]
    exact (h.tiles.congr fun a ha => h.blockSize_cutMemory_of_mem hp ha).concat rfl hc
      blockSize_cutMemory
  case bump_le =>
    rw [load64_bump_cutMemory hp]
    exact UInt64.le_iff_toNat_le.1 (UInt64.not_lt.1 hroom)
  case linked =>
    intro d hd
    rw [hheader (headAt d) (.inr (by rw [headAt, headAt]; omega)) (hheads d hd)]
    refine (h.linked d hd).congr fun a ha =>
      h.load64_cutMemory_of_mem hp (h.mem_of_stack hd ha) ?_ ?_
    · rw [linkAt]
      omega
    · rw [linkAt, blockHeader]
  case classed =>
    intro d hd a ha
    rw [h.blockSize_cutMemory_of_mem hp (h.mem_of_stack hd ha), h.classed d hd a ha]
  case places =>
    exact (List.perm_append_singleton ..).trans (h.places.cons _)

end

end SharedExchange.Pool
