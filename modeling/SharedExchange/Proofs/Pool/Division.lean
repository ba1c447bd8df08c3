import Mathlib.Tactic
import SharedExchange.Proofs.Pool.Classes

/-! # How the data area of a pool is divided

Everything below the bump cursor is cut into blocks without gaps (`Tiles`), each with the size of
a class in its header. The freed blocks of a class hang on one chain of links that starts in the
header of the pool (`Linked`). A block is either *taken* or on exactly one of these chains, and on
no other place of it (`Divided`).

The links of a chain lie in the bytes of the blocks themselves, so what keeps a division intact is
where bytes are written: `Divided.of_same` says which words matter, and `Divided.apart` that
different blocks share no byte. -/

namespace SharedExchange

/-- Where the block of a reference starts in the data area. -/
def BlockRef.start (b : BlockRef) : UInt64 := b.offset - UInt64.ofNat Pool.blockHeader

namespace Pool

/-- How many bytes a block takes, its header included. -/
def extent (p : Pool) (m : Memory) (start : UInt64) : Nat := (p.blockSize start m).toNat

/-! ## Blocks without gaps -/

/-- The blocks fill the data area from `start` to `stop` in this order, each with the size of a
class in its header. -/
def Tiles (p : Pool) (m : Memory) (stop : Nat) : (start : Nat) → List UInt64 → Prop
  | start, [] => start = stop
  | start, b :: blocks =>
    b.toNat = start ∧ (∃ c < classCount, p.blockSize b m = classSize c) ∧
      Tiles p m stop (start + p.extent m b) blocks

section

variable {p : Pool} {m m' : Memory} {start stop : Nat} {blocks : List UInt64} {b : UInt64}

/-- A block extends over the bytes of its class. -/
theorem extent_eq {c : Nat} (hc : c < classCount) (h : p.blockSize b m = classSize c) :
    p.extent m b = classBytes c := by
  rw [extent, h, toNat_classSize hc]

/-- A block with the same size word has the same extent. -/
theorem extent_congr (h : p.blockSize b m' = p.blockSize b m) : p.extent m' b = p.extent m b := by
  rw [extent, h, extent]

/-- The size of a tile is that of a class. -/
theorem Tiles.class_of_mem (h : Tiles p m stop start blocks) (hb : b ∈ blocks) :
    ∃ c < classCount, p.blockSize b m = classSize c := by
  induction blocks generalizing start with
  | nil => cases hb
  | cons a blocks ih =>
    obtain ⟨-, hclass, hrest⟩ := h
    rcases List.mem_cons.1 hb with rfl | hb
    · exact hclass
    · exact ih hrest hb

/-- No tile is smaller than the smallest block. -/
theorem Tiles.minBlock_le (h : Tiles p m stop start blocks) (hb : b ∈ blocks) :
    minBlock ≤ p.extent m b := by
  obtain ⟨c, hc, hsize⟩ := h.class_of_mem hb
  rw [extent_eq hc hsize]
  exact minBlock_le_classBytes c

/-- Tiles end where they begin or behind that. -/
theorem Tiles.start_le (h : Tiles p m stop start blocks) : start ≤ stop := by
  induction blocks generalizing start with
  | nil => exact Nat.le_of_eq h
  | cons a blocks ih => exact Nat.le_trans (Nat.le_add_right ..) (ih h.2.2)

/-- Every block lies between the ends of the tiling. -/
theorem Tiles.bounds (h : Tiles p m stop start blocks) (hb : b ∈ blocks) :
    start ≤ b.toNat ∧ b.toNat + p.extent m b ≤ stop := by
  induction blocks generalizing start with
  | nil => cases hb
  | cons a blocks ih =>
    obtain ⟨ha, -, hrest⟩ := h
    rcases List.mem_cons.1 hb with rfl | hb
    · -- the first block starts the tiling, and the others fill the rest of it
      exact ⟨ha.ge, by rw [ha]; exact hrest.start_le⟩
    · have hbounds := ih hrest hb
      omega

/-- Blocks lie one behind the other. -/
theorem Tiles.ordered (h : Tiles p m stop start blocks) :
    blocks.Pairwise fun a b => a.toNat + p.extent m a ≤ b.toNat := by
  induction blocks generalizing start with
  | nil => exact List.Pairwise.nil
  | cons a blocks ih =>
    obtain ⟨ha, -, hrest⟩ := h
    refine List.pairwise_cons.2 ⟨?_, ih hrest⟩
    intro b hb
    rw [ha]
    exact (hrest.bounds hb).1

/-- No two tiles begin at the same place. -/
theorem Tiles.nodup (h : Tiles p m stop start blocks) : blocks.Nodup := by
  refine h.ordered.imp_of_mem fun {a b} ha hb hab heq => ?_
  -- a block that came twice would have to lie behind itself
  have hpos := h.minBlock_le ha
  rw [minBlock] at hpos
  rw [heq] at hab hpos
  omega

/-- Tiles begin at multiples of the smallest block. -/
theorem Tiles.aligned (h : Tiles p m stop start blocks) (hstart : start % minBlock = 0)
    (hb : b ∈ blocks) : b.toNat % minBlock = 0 := by
  induction blocks generalizing start with
  | nil => cases hb
  | cons a blocks ih =>
    obtain ⟨ha, ⟨c, hc, hsize⟩, hrest⟩ := h
    rcases List.mem_cons.1 hb with rfl | hb
    · rwa [ha]
    · refine ih hrest ?_ hb
      rw [extent_eq hc hsize, Nat.add_mod, hstart, classBytes_mod_minBlock]
      rfl

/-- A tiling depends on the sizes in the headers of its blocks alone. -/
theorem Tiles.congr (h : Tiles p m stop start blocks)
    (hsame : ∀ b ∈ blocks, p.blockSize b m' = p.blockSize b m) :
    Tiles p m' stop start blocks := by
  induction blocks generalizing start with
  | nil => exact h
  | cons a blocks ih =>
    obtain ⟨ha, hclass, hrest⟩ := h
    have hhead := hsame a List.mem_cons_self
    refine ⟨ha, by rwa [hhead], ?_⟩
    rw [extent_congr hhead]
    exact ih hrest fun b hb => hsame b (List.mem_cons_of_mem _ hb)

/-- Another hold on the object makes no difference to the tiles. -/
theorem Tiles.reattach (a : Attachment) (h : Tiles p m stop start blocks) :
    Tiles { p with attachment := a } m stop start blocks := by
  induction blocks generalizing start with
  | nil => exact h
  | cons b blocks ih => exact ⟨h.1, h.2.1, ih h.2.2⟩

/-- A block cut at the end of a tiling extends it. -/
theorem Tiles.concat {c : Nat} (h : Tiles p m stop start blocks) (hb : b.toNat = stop)
    (hc : c < classCount) (hsize : p.blockSize b m = classSize c) :
    Tiles p m (stop + classBytes c) start (blocks ++ [b]) := by
  induction blocks generalizing start with
  | nil =>
    -- the new block is all there is
    obtain rfl : start = stop := h
    exact ⟨hb, ⟨c, hc, hsize⟩, by rw [extent_eq hc hsize]; rfl⟩
  | cons a blocks ih => exact ⟨h.1, h.2.1, ih h.2.2⟩

end

/-! ## Chains of freed blocks -/

/-- Following the links from `top` visits the blocks in this order and then ends. -/
def Linked (p : Pool) (m : Memory) : (top : UInt64) → List UInt64 → Prop
  | top, [] => top = nil
  | top, b :: blocks => top = b ∧ b ≠ nil ∧ Linked p m (m.load64 (p.linkAt b)) blocks

/-- A chain depends on the links of its blocks alone. -/
theorem Linked.congr {p : Pool} {m m' : Memory} {top : UInt64} {blocks : List UInt64}
    (h : Linked p m top blocks)
    (hsame : ∀ b ∈ blocks, m'.load64 (p.linkAt b) = m.load64 (p.linkAt b)) :
    Linked p m' top blocks := by
  induction blocks generalizing top with
  | nil => exact h
  | cons b blocks ih =>
    refine ⟨h.1, h.2.1, ?_⟩
    rw [hsame b List.mem_cons_self]
    exact ih h.2.2 fun a ha => hsame a (List.mem_cons_of_mem _ ha)

/-- Another hold on the object makes no difference to a chain. -/
theorem Linked.reattach {p : Pool} {m : Memory} {top : UInt64} {blocks : List UInt64}
    (a : Attachment) (h : Linked p m top blocks) :
    Linked { p with attachment := a } m top blocks := by
  induction blocks generalizing top with
  | nil => exact h
  | cons b blocks ih => exact ⟨h.1, h.2.1, ih h.2.2⟩

/-! ## The division -/

/-- The data area of a pool lies behind the header. -/
structure Based (p : Pool) : Prop where
  header_le : signature.headerSize ≤ p.dataStart.toNat

/-- A block cut at the bump cursor does not reach beyond the numbers of 64 bits. -/
def Ample (m : Memory) : Prop := (m.load64 bumpAt).toNat + 0x200000000000 < UInt64.size

/-- What the code takes for granted about a handle: the data area lies behind the header, and not
even a block cut at its very end reaches beyond the numbers of 64 bits. -/
structure Proper (p : Pool) : Prop extends Based p where
  noWrap : p.size.toNat + 0x200000000000 < UInt64.size

/-- The data area of a pool is divided: `blocks` are the blocks that were ever cut, `taken` those
in use, and `stack c` the freed ones of class `c`, last freed first. -/
structure Divided (p : Pool) (m : Memory) (taken blocks : List UInt64)
    (stack : Nat → List UInt64) : Prop where
  size_eq : m.load64 sizeAt = p.size
  dataStart_eq : m.load64 dataStartAt = p.dataStart
  /-- The blocks fill everything below the bump cursor. -/
  tiles : Tiles p m (m.load64 bumpAt).toNat 0 blocks
  bump_le : (m.load64 bumpAt).toNat ≤ p.size.toNat
  /-- The chain of a class has its blocks and ends. -/
  linked : ∀ c < classCount, Linked p m (m.load64 (headAt c)) (stack c)
  classed : ∀ c < classCount, ∀ b ∈ stack c, p.blockSize b m = classSize c
  /-- Every block is in use or on one chain. -/
  places : blocks.Perm (taken ++ (List.range classCount).flatMap stack)

namespace Divided

variable {p : Pool} {m m' : Memory} {taken blocks : List UInt64} {stack : Nat → List UInt64}
  {a b : UInt64} {c : Nat}

/-- A taken block is one of the blocks. -/
theorem mem_of_taken (h : Divided p m taken blocks stack) (hb : b ∈ taken) : b ∈ blocks :=
  h.places.mem_iff.2 (List.mem_append_left _ hb)

/-- A stacked block is one of the blocks. -/
theorem mem_of_stack (h : Divided p m taken blocks stack) (hc : c < classCount)
    (hb : b ∈ stack c) : b ∈ blocks :=
  h.places.mem_iff.2 (List.mem_append_right _ (List.mem_flatMap.2 ⟨c, List.mem_range.2 hc, hb⟩))

/-- Two different blocks share no byte. -/
theorem apart (h : Divided p m taken blocks stack) (ha : a ∈ blocks) (hb : b ∈ blocks)
    (hab : a ≠ b) :
    a.toNat + p.extent m a ≤ b.toNat ∨ b.toNat + p.extent m b ≤ a.toNat := by
  let Apart (a b : UInt64) : Prop :=
    a.toNat + p.extent m a ≤ b.toNat ∨ b.toNat + p.extent m b ≤ a.toNat
  -- `Pairwise` knows the order of the list; the relation does not depend on it
  have hsym : Std.Symm Apart := ⟨fun _ _ hab => hab.symm⟩
  have hapart : blocks.Pairwise Apart := h.tiles.ordered.imp fun hab => .inl hab
  exact hapart.forall ha hb hab

/-- The order of the taken blocks does not matter to a division. -/
theorem perm_taken {taken' : List UInt64} (h : Divided p m taken blocks stack)
    (hperm : taken.Perm taken') : Divided p m taken' blocks stack :=
  { h with places := h.places.trans (hperm.append_right _) }

/-- In a divided pool there is room behind the cursor for a block of any class, as far as words
go. -/
theorem ample (hp : Proper p) (h : Divided p m taken blocks stack) : Ample m :=
  (Nat.add_le_add_right h.bump_le _).trans_lt hp.noWrap

/-- All handles on a pool see the same division. -/
theorem reattach (attachment : Attachment) (h : Divided p m taken blocks stack) :
    Divided { p with attachment := attachment } m taken blocks stack where
  size_eq := h.size_eq
  dataStart_eq := h.dataStart_eq
  tiles := h.tiles.reattach attachment
  bump_le := h.bump_le
  linked c hc := (h.linked c hc).reattach attachment
  classed := h.classed
  places := h.places

/-- A division depends on the words of the header that it reads and on the headers of the
blocks. -/
theorem of_same (h : Divided p m taken blocks stack) (hsize : m'.load64 sizeAt = m.load64 sizeAt)
    (hstart : m'.load64 dataStartAt = m.load64 dataStartAt)
    (hbump : m'.load64 bumpAt = m.load64 bumpAt)
    (hheads : ∀ c < classCount, m'.load64 (headAt c) = m.load64 (headAt c))
    (hsizes : ∀ b ∈ blocks, p.blockSize b m' = p.blockSize b m)
    (hlinks : ∀ b ∈ blocks, m'.load64 (p.linkAt b) = m.load64 (p.linkAt b)) :
    Divided p m' taken blocks stack where
  size_eq := hsize.trans h.size_eq
  dataStart_eq := hstart.trans h.dataStart_eq
  tiles := by
    rw [hbump]
    exact h.tiles.congr hsizes
  bump_le := by
    rw [hbump]
    exact h.bump_le
  linked c hc := by
    rw [hheads c hc]
    exact (h.linked c hc).congr fun b hb => hlinks b (h.mem_of_stack hc hb)
  classed c hc b hb := by
    rw [hsizes b (h.mem_of_stack hc hb)]
    exact h.classed c hc b hb
  places := h.places

end Divided

end Pool
end SharedExchange
