import Mathlib.Tactic
import SharedExchange.Proofs.Pool.Usage

/-! # The books of a pool

A pool counts the blocks it hands out and takes back, and their bytes. `Accounted` says that the
difference is what is out: so many blocks as there are references in use, and so many bytes as their
blocks have. The counters are words, and the difference stays right where they start over.

What a block holds is of no concern to the pool: whatever is handed out, given back or written
elsewhere, the bytes of a block in use stay (`contents_allocate`, `contents_freedMemory`,
`contents_store`, and for whatever a party asks `Sound.contents_perform`). -/

namespace SharedExchange.Pool

/-! ## The ledger -/

/-- What a pool has counted: blocks and bytes, handed out and taken back. -/
structure Ledger where
  allocations : UInt64
  deallocations : UInt64
  allocatedBytes : UInt64
  freedBytes : UInt64

namespace Ledger

/-- A block of a size is handed out. -/
def handOut (l : Ledger) (size : UInt64) : Ledger :=
  { l with allocations := l.allocations + 1, allocatedBytes := l.allocatedBytes + size }

/-- A block of a size is taken back. -/
def takeBack (l : Ledger) (size : UInt64) : Ledger :=
  { l with deallocations := l.deallocations + 1, freedBytes := l.freedBytes + size }

/-- By the ledger, so many blocks with so many bytes are out. -/
structure Balances (l : Ledger) (blocks bytes : Nat) : Prop where
  blocks_eq : l.allocations = l.deallocations + UInt64.ofNat blocks
  bytes_eq : l.allocatedBytes = l.freedBytes + UInt64.ofNat bytes

variable {l : Ledger} {blocks bytes : Nat} {size : UInt64}

/-- A block that is handed out is counted and weighed. -/
theorem Balances.handOut (h : l.Balances blocks bytes) :
    (l.handOut size).Balances (blocks + 1) (size.toNat + bytes) := by
  constructor
  · rw [Ledger.handOut, h.blocks_eq, UInt64.ofNat_add, UInt64.ofNat_one, UInt64.add_assoc]
  · rw [Ledger.handOut, h.bytes_eq, UInt64.ofNat_add, UInt64.ofNat_toNat, UInt64.add_assoc,
      UInt64.add_comm size]

/-- A block that is taken back is counted and weighed no more. -/
theorem Balances.takeBack (h : l.Balances (blocks + 1) (size.toNat + bytes)) :
    (l.takeBack size).Balances blocks bytes := by
  constructor
  · rw [Ledger.takeBack, h.blocks_eq, UInt64.ofNat_add, UInt64.ofNat_one, UInt64.add_assoc,
      UInt64.add_comm 1]
  · rw [Ledger.takeBack, h.bytes_eq, UInt64.ofNat_add, UInt64.ofNat_toNat, UInt64.add_assoc]

end Ledger

/-- The ledger of a pool. -/
def ledger (m : Memory) : Ledger :=
  ⟨m.load64 allocationsAt, m.load64 deallocationsAt, m.load64 allocatedBytesAt,
    m.load64 freedBytesAt⟩

/-- The statistics tell how many blocks were handed out. -/
theorem stats_allocations (p : Pool) (m : Memory) :
    (p.stats m).allocations = (ledger m).allocations := rfl

/-- The statistics tell how many blocks were taken back. -/
theorem stats_deallocations (p : Pool) (m : Memory) :
    (p.stats m).deallocations = (ledger m).deallocations := rfl

/-- The statistics tell by how much more was handed out than taken back, and nothing below zero. -/
theorem stats_bytesInUse (p : Pool) (m : Memory) :
    (p.stats m).bytesInUse = if (ledger m).allocatedBytes < (ledger m).freedBytes then 0
      else (ledger m).allocatedBytes - (ledger m).freedBytes := by
  rw [ledger]
  simp only [stats]

/-- What the counters of blocks say after a block was handed out. -/
theorem stats_handOut {m m' : Memory} {size : UInt64} (p : Pool)
    (h : ledger m' = (ledger m).handOut size) :
    (p.stats m').allocations = (p.stats m).allocations + 1 ∧
      (p.stats m').deallocations = (p.stats m).deallocations := by
  simp only [stats_allocations, stats_deallocations, h, Ledger.handOut, and_self]

/-- What they say after a block was taken back. -/
theorem stats_takeBack {m m' : Memory} {size : UInt64} (p : Pool)
    (h : ledger m' = (ledger m).takeBack size) :
    (p.stats m').allocations = (p.stats m).allocations ∧
      (p.stats m').deallocations = (p.stats m).deallocations + 1 := by
  simp only [stats_allocations, stats_deallocations, h, Ledger.takeBack, and_self]

/-- The words of the ledger stand in two places of the header. -/
theorem ledger_congr {m m' : Memory}
    (h : ∀ position, position = allocationsAt ∨ position = allocatedBytesAt ∨
      position = deallocationsAt ∨ position = freedBytesAt →
      m'.load64 position = m.load64 position) : ledger m' = ledger m := by
  rw [ledger, h _ (.inl rfl), h _ (.inr (.inl rfl)), h _ (.inr (.inr (.inl rfl))),
    h _ (.inr (.inr (.inr rfl))), ledger]

/-! ## What is out -/

/-- How many bytes the blocks of references take together, their headers included. -/
def weight (p : Pool) (m : Memory) (live : List BlockRef) : Nat :=
  (live.map fun b => p.extent m b.start).sum

/-- The bytes that a reference names. -/
def contents (p : Pool) (m : Memory) (b : BlockRef) : List UInt8 :=
  m.slice (p.bytesAt b) b.size.toNat

/-- The blocks of the references `live` are in use, and the ledger says so. -/
structure Accounted (p : Pool) (m : Memory) (live : List BlockRef) : Prop where
  proper : Proper p
  inside : p.dataStart.toNat + p.size.toNat ≤ m.size
  sound : Sound p m live
  balances : (ledger m).Balances live.length (p.weight m live)

variable {p : Pool} {m m' : Memory} {live : List BlockRef} {a b : BlockRef} {n start : UInt64}
  {c : Nat}

/-- A block has as many bytes as its reference says. -/
@[simp] theorem length_contents (p : Pool) (m : Memory) (b : BlockRef) :
    (p.contents m b).length = b.size.toNat := Memory.length_slice ..

/-- Blocks in use weigh what the first and the others weigh. -/
@[simp] theorem weight_cons (p : Pool) (m : Memory) (b : BlockRef) (live : List BlockRef) :
    p.weight m (b :: live) = (p.blockSize b.start m).toNat + p.weight m live := rfl

/-- The order of the blocks in use does not matter to their weight. -/
theorem weight_perm {live' : List BlockRef} (h : live.Perm live') :
    p.weight m live = p.weight m live' :=
  (h.map _).sum_eq

/-- Blocks that keep their extents keep their weight. -/
theorem weight_congr (h : ∀ b ∈ live, p.extent m' b.start = p.extent m b.start) :
    p.weight m' live = p.weight m live := by
  rw [weight, List.map_congr_left h, weight]

/-- One block in use and the others weigh what all weigh. -/
theorem weight_erase (hb : b ∈ live) :
    p.weight m live = p.extent m b.start + p.weight m (live.erase b) :=
  weight_perm (List.perm_cons_erase hb)

/-- The order of the blocks in use does not matter to the books. -/
theorem Accounted.perm {live' : List BlockRef} (h : Accounted p m live) (hperm : live.Perm live') :
    Accounted p m live' := by
  refine ⟨h.proper, h.inside, h.sound.perm hperm, ?_⟩
  rw [← hperm.length_eq, ← weight_perm hperm]
  exact h.balances

/-- Any reference that the pool takes for one to a block in use can stand for that block. -/
theorem Accounted.refer (h : Accounted p m (b :: live)) (hlocate : p.locate a m = .ok b.start) :
    Accounted p m (a :: live) := by
  obtain ⟨hp, hinside, ⟨blocks, stack, hdiv, hwithin⟩, hbalances⟩ := h
  rw [locate] at hlocate
  split at hlocate
  · next start hfound =>
    obtain rfl := Except.ok.inj hlocate
    obtain ⟨hheader, -, -, -, hmin, -, hsize, hstart⟩ := locate?_eq_some_iff.1 hfound
    have hwithin' : a.Within p m := by
      refine ⟨?_, ?_⟩
      · have hle : UInt64.ofNat blockHeader ≤ a.offset := UInt64.le_iff_toNat_le.2 hheader
        rw [BlockRef.start, UInt64.toNat_sub_of_le _ _ hle]
        exact (Nat.sub_add_cancel hheader).symm
      · rw [minBlock] at hmin
        rw [blockHeader] at hsize ⊢
        omega
    refine ⟨hp, hinside, ⟨blocks, stack, ?_, ?_⟩, ?_⟩
    · rwa [List.map_cons, hstart]
    · intro c hc
      rcases List.mem_cons.1 hc with rfl | hc
      · exact hwithin'
      · exact hwithin c (List.mem_cons_of_mem _ hc)
    · rwa [weight_cons, hstart]
  · cases hlocate

/-- All handles on a pool keep the same books. -/
theorem Accounted.reattach (attachment : Attachment) (h : Accounted p m live) :
    Accounted { p with attachment := attachment } m live :=
  ⟨⟨⟨h.proper.header_le⟩, h.proper.noWrap⟩, h.inside, h.sound.reattach attachment, h.balances⟩

/-- When nothing is out, the counters agree. -/
theorem Accounted.stats_nil (h : Accounted p m []) :
    (p.stats m).allocations = (p.stats m).deallocations ∧ (p.stats m).bytesInUse = 0 := by
  obtain ⟨hblocks, hbytes⟩ := h.balances
  have hallocated : m.load64 allocatedBytesAt = m.load64 freedBytesAt :=
    hbytes.trans (UInt64.add_zero _)
  refine ⟨hblocks.trans (UInt64.add_zero _), ?_⟩
  rw [stats]
  simp only [hallocated, UInt64.lt_irrefl, if_false, UInt64.sub_self]

/-- A block in use is read. -/
theorem Sound.read_eq (h : Sound p m live) (hb : b ∈ live) :
    p.read b m = .ok (p.contents m b) := by
  rw [read, h.locate hb]
  rfl

/-! ## Which bytes are written -/

/-- Finding a block for a request writes the cursor, two counters, the tops of the chains and, when
the block is new, its header. -/
theorem get_place (hc : c < classCount) (h : p.place? c m = some (start, m')) {i : Nat}
    (hbump : i < bumpAt ∨ bumpAt + 8 ≤ i) (hcounts : i < cacheHitsAt ∨ bumpAllocationsAt + 8 ≤ i)
    (hheads : i < headAt 0 ∨ headAt classCount ≤ i)
    (hblock : i < p.blockAt (m.load64 bumpAt) ∨ p.blockAt (m.load64 bumpAt) + blockHeader ≤ i) :
    m'.get i = m.get i := by
  obtain hcut | ⟨d, -, hd, ⟨top, popped⟩, hfound, heq⟩ := place?_eq_some hc h
  · rw [cut?_eq] at hcut
    split at hcut
    · cases hcut
    · simp only [blockHeader, cacheHitsAt, bumpAllocationsAt] at hblock hcounts
      rw [← (Prod.mk.inj (Option.some.inj hcut)).2, cutMemory,
        Memory.get_store64_of_disjoint _ _ (by rw [linkAt]; omega),
        Memory.get_store64_of_disjoint _ _ (by omega), Memory.modify64,
        Memory.get_store64_of_disjoint _ _ (by rw [bumpAllocationsAt]; omega),
        Memory.get_store64_of_disjoint _ _ hbump]
  · simp only [cacheHitsAt, bumpAllocationsAt] at hcounts
    rw [pop?] at hfound
    split at hfound
    · cases hfound
    · rw [← (Prod.mk.inj heq).2, Memory.modify64,
        Memory.get_store64_of_disjoint _ _ (by rw [cacheHitsAt]; omega),
        ← (Prod.mk.inj (Option.some.inj hfound)).2,
        Memory.get_store64_of_disjoint _ _ (by simp only [headAt] at hheads ⊢; omega)]

/-- The memory after a block that was found has been counted. -/
def countedMemory (p : Pool) (start : UInt64) (m : Memory) : Memory :=
  (m.modify64 allocationsAt (· + 1)).modify64 allocatedBytesAt
    (· + p.blockSize start (m.modify64 allocationsAt (· + 1)))

/-- Counting a block leaves the division as it is. -/
theorem Divided.counted (hp : Based p) {taken blocks : List UInt64} {stack : Nat → List UInt64}
    (h : Divided p m taken blocks stack) (start : UInt64) :
    Divided p (p.countedMemory start m) taken blocks stack := by
  simp only [countedMemory, Memory.modify64]
  exact (h.count hp _ (by decide) (by decide)).count hp _ (by decide) (by decide)

/-- A request that is served is served by a block that was found, which is then counted. -/
theorem eq_of_allocate (h : p.allocate n m = (.ok b, m')) :
    ∃ c < classCount, ∃ placed, p.place? c m = some (b.start, placed) ∧
      m' = p.countedMemory b.start placed := by
  rw [allocate] at h
  split at h
  · cases h
  · next start placed hplace =>
    cases h
    obtain ⟨c, hrequest, hfound⟩ := Option.bind_eq_some_iff.1 hplace
    have hstart : (⟨start + UInt64.ofNat blockHeader, n⟩ : BlockRef).start = start :=
      UInt64.add_sub_cancel ..
    rw [hstart]
    exact ⟨c, (requestClass?_eq_some hrequest).1, placed, hfound, rfl⟩

/-- A block is referred to by the size that was asked for. -/
theorem size_of_allocate (h : p.allocate n m = (.ok b, m')) : b.size = n := by
  rw [allocate] at h
  split at h
  · cases h
  · cases h
    rfl

/-- Counting a block changes the two counters only. -/
theorem get_countedMemory {i : Nat} (hcount : i < allocationsAt ∨ allocationsAt + 8 ≤ i)
    (hbytes : i < allocatedBytesAt ∨ allocatedBytesAt + 8 ≤ i) :
    (p.countedMemory start m).get i = m.get i := by
  rw [countedMemory, Memory.modify64, Memory.get_store64_of_disjoint _ _ hbytes, Memory.modify64,
    Memory.get_store64_of_disjoint _ _ hcount]

/-- Finding a block leaves the ledger alone. -/
theorem ledger_place (hp : Based p) (hc : c < classCount) (h : p.place? c m = some (start, m')) :
    ledger m' = ledger m := by
  have hdata := hp.header_le
  refine ledger_congr fun position hledger =>
    Memory.load64_congr fun i hlow hhigh => get_place hc h ?_ ?_ (.inl ?_) (.inl ?_)
  all_goals
    simp only [signature, allocationsAt, allocatedBytesAt, deallocationsAt, freedBytesAt] at *
  · rw [bumpAt]
    omega
  · rw [cacheHitsAt, bumpAllocationsAt]
    omega
  · rw [headAt]
    omega
  · rw [blockAt]
    omega

/-- Giving back a block writes the link in its header, the top of a chain and two counters. -/
theorem get_freedMemory {i : Nat} (hlink : i < p.linkAt start ∨ p.linkAt start + 8 ≤ i)
    (hhead : i < headAt c ∨ headAt c + 8 ≤ i)
    (hbooks : i < deallocationsAt ∨ freedBytesAt + 8 ≤ i) :
    (p.freedMemory c start m).get i = m.get i := by
  simp only [deallocationsAt, freedBytesAt] at hbooks
  rw [freedMemory, Memory.modify64,
    Memory.get_store64_of_disjoint _ _ (by rw [freedBytesAt]; omega), Memory.modify64,
    Memory.get_store64_of_disjoint _ _ (by rw [deallocationsAt]; omega), push,
    Memory.get_store64_of_disjoint _ _ hhead, Memory.get_store64_of_disjoint _ _ hlink]

/-! ## What blocks hold -/

/-- The bytes of a reference lie in its block, behind the header. -/
theorem bytesAt_eq (hb : b.Within p m) : p.bytesAt b = p.blockAt b.start + blockHeader := by
  rw [bytesAt, blockAt, blockAt, hb.offset_eq]
  omega

/-- The header of the pool stands in front of the bytes of all blocks. -/
theorem load64_store_bytes (hp : Based p) (hb : b.Within p m) (bytes : List UInt8) {position : Nat}
    (hhigh : position + 8 ≤ signature.headerSize) :
    (m.store (p.bytesAt b) bytes).load64 position = m.load64 position := by
  have hdata := hp.header_le
  refine Memory.load64_store_of_disjoint _ (.inl ?_)
  rw [bytesAt_eq hb, blockAt]
  omega

/-- The contents of a block depend on the bytes behind its header only. -/
theorem contents_congr (hb : b.Within p m)
    (h : ∀ i, p.blockAt b.start + blockHeader ≤ i → i < p.blockAt b.start + p.extent m b.start →
      m'.get i = m.get i) : p.contents m' b = p.contents m b := by
  have hfits := hb.size_le
  refine Memory.slice_congr fun i hlow hhigh => h i ?_ ?_
  · rwa [bytesAt_eq hb] at hlow
  · rw [bytesAt_eq hb] at hhigh
    omega

/-- No two references in use have the same start. -/
theorem Sound.nodup (h : Sound p m live) : (live.map BlockRef.start).Nodup := by
  obtain ⟨blocks, stack, hdiv, -⟩ := h
  exact (List.nodup_append.1 hdiv.nodup).1

/-- Different references in use are to blocks that start at different places. -/
theorem Sound.start_ne (h : Sound p m live) (ha : a ∈ live) (hb : b ∈ live) (hab : a ≠ b) :
    a.start ≠ b.start := fun heq => hab (List.inj_on_of_nodup_map h.nodup ha hb heq)

/-! ## Handing out -/

/-- Counting a block enters its size in the ledger. -/
theorem ledger_countedMemory (hp : Based p) (start : UInt64) (m : Memory) :
    ledger (p.countedMemory start m) =
      (ledger m).handOut (p.blockSize start (p.countedMemory start m)) := by
  have hsame : p.blockSize start (p.countedMemory start m) =
      p.blockSize start (m.modify64 allocationsAt (· + 1)) := by
    rw [countedMemory, Memory.modify64, blockSize_store64 hp (by decide)]
  have hallocations : (p.countedMemory start m).load64 allocationsAt =
      m.load64 allocationsAt + 1 := by
    rw [countedMemory, Memory.modify64, Memory.load64_store64_of_disjoint _ _ (.inl (by decide)),
      Memory.modify64, Memory.load64_store64_same]
  have hallocated : (p.countedMemory start m).load64 allocatedBytesAt =
      m.load64 allocatedBytesAt + p.blockSize start (p.countedMemory start m) := by
    rw [hsame, countedMemory, Memory.modify64, Memory.load64_store64_same, Memory.modify64,
      Memory.load64_store64_of_disjoint _ _ (.inr (by decide))]
  have hother : ∀ position, allocatedBytesAt + 8 ≤ position →
      (p.countedMemory start m).load64 position = m.load64 position := by
    intro position hlow
    simp only [allocatedBytesAt] at hlow
    refine Memory.load64_congr fun i hfrom _ => get_countedMemory (.inr ?_) (.inr ?_)
    · rw [allocationsAt]
      omega
    · rw [allocatedBytesAt]
      omega
  rw [ledger, hallocations, hallocated, hother _ (by decide), hother _ (by decide), Ledger.handOut,
    ledger]

/-- The blocks in use lie between the header of the pool and the cursor, where nothing is written
when another block is handed out. -/
theorem contents_allocate (hp : Based p) (h : Sound p m live)
    (halloc : p.allocate n m = (.ok b, m')) (ha : a ∈ live) : p.contents m' a = p.contents m a := by
  obtain ⟨blocks, stack, hdiv, hwithin⟩ := h
  obtain ⟨c, hc, placed, hplace, rfl⟩ := eq_of_allocate halloc
  have hdata := hp.header_le
  have hbounds := hdiv.tiles.bounds (hdiv.mem_of_taken (List.mem_map_of_mem ha))
  refine contents_congr (hwithin a ha) fun i hlow hhigh => ?_
  simp only [signature, blockAt, blockHeader] at hdata hlow hhigh
  rw [get_countedMemory (.inr (by rw [allocationsAt]; omega))
    (.inr (by rw [allocatedBytesAt]; omega))]
  refine get_place hc hplace (.inr ?_) (.inr ?_) (.inr ?_) (.inl ?_)
  · rw [bumpAt]
    omega
  · rw [bumpAllocationsAt]
    omega
  · rw [headAt, classCount]
    omega
  · rw [blockAt]
    omega

/-- A block that is handed out weighs what it has, and those in use before weigh the same. -/
theorem Divided.weight_allocate (hp : Based p) {blocks : List UInt64} {stack : Nat → List UInt64}
    (h : Divided p m (live.map BlockRef.start) blocks stack) (hample : Ample m)
    (halloc : p.allocate n m = (.ok b, m')) :
    p.weight m' (b :: live) = p.extent m' b.start + p.weight m live := by
  obtain ⟨-, _, -, -, hgiven⟩ := h.given_of_allocate hp hample halloc
  have hsame : p.weight m' live = p.weight m live :=
    weight_congr fun a ha => hgiven.kept a.start (List.mem_map_of_mem ha)
  rw [weight_cons, hsame, extent]

/-- Handing out a block puts it into the books and leaves all others as they are. -/
theorem Accounted.allocate (h : Accounted p m live) (halloc : p.allocate n m = (.ok b, m')) :
    Accounted p m' (b :: live) ∧ (∀ a ∈ live, p.contents m' a = p.contents m a) ∧
      ∃ size, ledger m' = (ledger m).handOut size := by
  obtain ⟨hp, hinside, hsound, hbalances⟩ := h
  have hample := hsound.ample hp
  have hgiven := hsound.allocate hp.toBased hample halloc
  have hcontents := fun a => contents_allocate (a := a) hp.toBased hsound halloc
  have hsize : m'.size = m.size := by
    rw [← size_allocate p m n, halloc]
  obtain ⟨blocks, stack, hdiv, -⟩ := hsound
  have hweight := hdiv.weight_allocate hp.toBased hample halloc
  obtain ⟨c, hc, placed, hplace, rfl⟩ := eq_of_allocate halloc
  have hledger := ledger_countedMemory hp.toBased b.start placed
  rw [ledger_place hp.toBased hc hplace] at hledger
  refine ⟨⟨hp, ?_, hgiven, ?_⟩, hcontents, _, hledger⟩
  · rw [hsize]
    exact hinside
  · rw [hledger, List.length_cons, hweight]
    exact hbalances.handOut

/-! ## Giving back -/

/-- Of the header of the pool, only what stands from the second half of the ledger on is written. -/
theorem load64_freedMemory (hp : Based p) (c : Nat) (start : UInt64) (m : Memory) {position : Nat}
    (hhigh : position + 8 ≤ deallocationsAt) :
    (p.freedMemory c start m).load64 position = m.load64 position := by
  have hdata := hp.header_le
  simp only [signature, deallocationsAt] at hdata hhigh
  refine Memory.load64_congr fun i _ hlast => get_freedMemory (.inl ?_) (.inl ?_) (.inl ?_)
  · rw [linkAt, blockAt]
    omega
  · rw [headAt]
    omega
  · rw [deallocationsAt]
    omega

/-- Freeing a block enters its size in the ledger. -/
theorem ledger_freedMemory (hp : Based p) (c : Nat) (start : UInt64) (m : Memory) :
    ledger (p.freedMemory c start m) = (ledger m).takeBack (p.blockSize start m) := by
  have hdata := hp.header_le
  simp only [signature] at hdata
  have hpushed : ∀ position, position + 8 ≤ headAt 0 →
      (p.push c start m).load64 position = m.load64 position := by
    intro position hhigh
    rw [headAt] at hhigh
    exact Divided.load64_push (.inl (by rw [linkAt, blockAt]; omega)) (.inl (by rw [headAt]; omega))
  have hdeallocations : (p.freedMemory c start m).load64 deallocationsAt =
      m.load64 deallocationsAt + 1 := by
    rw [freedMemory, Memory.modify64, Memory.load64_store64_of_disjoint _ _ (.inl (by decide)),
      Memory.modify64, Memory.load64_store64_same, hpushed _ (by decide)]
  have hfreed : (p.freedMemory c start m).load64 freedBytesAt =
      m.load64 freedBytesAt + p.blockSize start m := by
    rw [freedMemory, Memory.modify64, Memory.load64_store64_same, Memory.modify64,
      Memory.load64_store64_of_disjoint _ _ (.inr (by decide)), hpushed _ (by decide)]
  rw [ledger, hdeallocations, hfreed, load64_freedMemory hp c start m (by decide),
    load64_freedMemory hp c start m (by decide), Ledger.takeBack, ledger]

/-- Of the blocks, only the header of the one that is given back is written. -/
theorem contents_freedMemory (hp : Based p) (h : Sound p m live) (hc : c < classCount)
    (hb : b ∈ live) (ha : a ∈ live) :
    p.contents (p.freedMemory c b.start m) a = p.contents m a := by
  obtain ⟨blocks, stack, hdiv, hwithin⟩ := h
  have hdata := hp.header_le
  have hmem := hdiv.mem_of_taken (List.mem_map_of_mem (f := BlockRef.start) hb)
  simp only [signature, classCount] at hdata hc
  refine contents_congr (hwithin a ha) fun i hlow hhigh => get_freedMemory ?_ (.inr ?_) (.inr ?_)
  · simp only [linkAt, blockAt, blockHeader] at *
    by_cases hab : a.start = b.start
    · -- the link of the block itself lies in front of its bytes
      rw [hab] at hlow
      exact .inr (by omega)
    · have hapart := hdiv.apart (hdiv.mem_of_taken (List.mem_map_of_mem ha)) hmem hab
      have hmin := hdiv.tiles.minBlock_le hmem
      rw [minBlock] at hmin
      omega
  · simp only [headAt, blockAt] at *
    omega
  · simp only [freedBytesAt, blockAt] at *
    omega

/-- Giving back a block leaves the sizes of the others. -/
theorem Divided.weight_freedMemory (hp : Based p) {blocks : List UInt64}
    {stack : Nat → List UInt64} (h : Divided p m (live.map BlockRef.start) blocks stack)
    (hb : b ∈ live) (hc : c < classCount) :
    p.weight (p.freedMemory c b.start m) (live.erase b) = p.weight m (live.erase b) :=
  weight_congr fun _ ha => h.extent_freedMemory hp hc
    (h.mem_of_taken (List.mem_map_of_mem (f := BlockRef.start) hb))
    (h.mem_of_taken (List.mem_map_of_mem (List.mem_of_mem_erase ha)))

/-- Giving back a block in use succeeds, takes it out of the books and leaves all others as they
are. -/
theorem Accounted.deallocate (h : Accounted p m live) (hb : b ∈ live) :
    ∃ m', p.deallocate b m = (.ok (), m') ∧ Accounted p m' (live.erase b) ∧
      (∀ a ∈ live, p.contents m' a = p.contents m a) ∧
      ∃ size, ledger m' = (ledger m).takeBack size := by
  obtain ⟨hp, hinside, hsound, hbalances⟩ := h
  obtain ⟨c, hc, hclass, hfree⟩ := hsound.deallocate_eq hb
  have hleft := hsound.freed hp.toBased hb hc hclass
  have hsize : (p.freedMemory c b.start m).size = m.size := by
    rw [← size_deallocate p m b, hfree]
  have hcontents := fun a => contents_freedMemory (a := a) hp.toBased hsound hc hb
  obtain ⟨blocks, stack, hdiv, -⟩ := hsound
  have hledger := ledger_freedMemory hp.toBased c b.start m
  have hperm := List.perm_cons_erase hb
  have hweight := hdiv.weight_freedMemory hp.toBased hb hc
  refine ⟨_, hfree, ⟨hp, ?_, hleft, ?_⟩, hcontents, _, hledger⟩
  · rw [hsize]
    exact hinside
  · rw [hperm.length_eq, weight_perm hperm, List.length_cons, weight_cons] at hbalances
    rw [hledger, hweight]
    exact hbalances.takeBack

/-! ## Writing into a block -/

/-- Writing to a block in use does not touch the ledger. -/
theorem ledger_store (hp : Based p) (hb : b.Within p m) (bytes : List UInt8) :
    ledger (m.store (p.bytesAt b) bytes) = ledger m := by
  refine ledger_congr fun position hledger => load64_store_bytes hp hb bytes ?_
  rcases hledger with rfl | rfl | rfl | rfl <;> decide

/-- Blocks share no byte, so writing into one leaves what the others hold. -/
theorem contents_store (h : Sound p m live) (hb : b ∈ live) {bytes : List UInt8}
    (hlength : bytes.length ≤ b.size.toNat) (ha : a ∈ live) (hab : a ≠ b) :
    p.contents (m.store (p.bytesAt b) bytes) a = p.contents m a := by
  have hstarts := h.start_ne ha hb hab
  obtain ⟨blocks, stack, hdiv, hwithin⟩ := h
  have hfits := (hwithin b hb).size_le
  have hapart := hdiv.apart (hdiv.mem_of_taken (List.mem_map_of_mem ha))
    (hdiv.mem_of_taken (List.mem_map_of_mem hb)) hstarts
  refine contents_congr (hwithin a ha) fun i hlow hhigh => Memory.get_store_of_disjoint _ ?_
  simp only [bytesAt_eq (hwithin b hb), blockAt, blockHeader] at *
  omega

/-- Writing into a block in use leaves the sizes of all. -/
theorem Divided.weight_store {blocks : List UInt64} {stack : Nat → List UInt64}
    (h : Divided p m (live.map BlockRef.start) blocks stack) (hb : b ∈ live)
    (hwithin : b.Within p m) {bytes : List UInt8} (hlength : bytes.length ≤ b.size.toNat) :
    p.weight (m.store (p.bytesAt b) bytes) live = p.weight m live := by
  have hfits := hwithin.size_le
  have hbytes := bytesAt_eq hwithin
  have hend : p.bytesAt b + bytes.length ≤ p.blockAt b.start + p.extent m b.start := by omega
  exact weight_congr fun a ha => extent_congr (h.blockSize_store_inside
    (List.mem_map_of_mem hb) hbytes.ge hend (h.mem_of_taken (List.mem_map_of_mem ha)))

/-- Writing into a block in use leaves the books and all other blocks as they are. -/
theorem Accounted.store (h : Accounted p m live) (hb : b ∈ live) {bytes : List UInt8}
    (hlength : bytes.length ≤ b.size.toNat) :
    Accounted p (m.store (p.bytesAt b) bytes) live ∧
      (∀ a ∈ live, a ≠ b → p.contents (m.store (p.bytesAt b) bytes) a = p.contents m a) ∧
      ledger (m.store (p.bytesAt b) bytes) = ledger m := by
  obtain ⟨hp, hinside, hsound, hbalances⟩ := h
  have hstored := hsound.store hp.toBased hb hlength
  have hcontents := fun a => contents_store (a := a) hsound hb hlength
  obtain ⟨blocks, stack, hdiv, hwithin⟩ := hsound
  have hledger := ledger_store hp.toBased (hwithin b hb) bytes
  have hweight := hdiv.weight_store hb (hwithin b hb) hlength
  refine ⟨⟨hp, ?_, hstored, ?_⟩, hcontents, hledger⟩
  · rw [Memory.size_store]
    exact hinside
  · rw [hledger, hweight]
    exact hbalances

/-! ## Whatever is asked -/

/-- A party that uses some of the blocks leaves what the others hold. -/
theorem Sound.contents_perform {others held : List BlockRef} (hp : Based p)
    (h : Sound p m (others ++ held)) (hample : Ample m) (action : Action) (ha : a ∈ others) :
    p.contents (p.perform m held action).1 a = p.contents m a := by
  have hmem : a ∈ others ++ held := List.mem_append_left _ ha
  have hapart : ∀ b ∈ held, a ≠ b := (List.nodup_append.1 h.nodup.of_map).2.2 a ha
  have hdone := h.performed hp hample (List.subset_append_right others held) action
  generalize p.perform m held action = after at hdone ⊢
  cases hdone with
  | nothing => rfl
  | @stored b bytes hb hlength =>
    exact contents_store h (List.mem_append_right _ hb) hlength hmem (hapart b hb)
  | handedOut halloc => exact contents_allocate hp h halloc hmem
  | @handedOutWith n b m' bytes halloc hlength =>
    have hgiven := h.allocate hp hample halloc
    have hnew : a ≠ b := fun hab =>
      (List.nodup_cons.1 hgiven.nodup.of_map).1 (hab ▸ hmem)
    exact (contents_store hgiven List.mem_cons_self hlength
      (List.mem_cons_of_mem _ hmem) hnew).trans (contents_allocate hp h halloc hmem)
  | takenBack hb hc hsize =>
    exact contents_freedMemory hp h hc (List.mem_append_right _ hb) hmem

/-- A party that uses some of the blocks leaves the others, and what they hold. -/
theorem Accounted.perform {others held : List BlockRef} (h : Accounted p m (others ++ held))
    (action : Action) :
    Accounted p (p.perform m held action).1 (others ++ (p.perform m held action).2) ∧
      ∀ a ∈ others, p.contents (p.perform m held action).1 a = p.contents m a := by
  have hample := h.sound.ample h.proper
  refine ⟨?_, fun a => h.sound.contents_perform h.proper.toBased hample action⟩
  have hdone := h.sound.performed h.proper.toBased hample (List.subset_append_right others held)
    action
  generalize p.perform m held action = after at hdone ⊢
  cases hdone with
  | nothing => exact h
  | stored hb hlength => exact (h.store (List.mem_append_right _ hb) hlength).1
  | handedOut halloc => exact (h.allocate halloc).1.perm List.perm_middle.symm
  | handedOutWith halloc hlength =>
    exact ((h.allocate halloc).1.store List.mem_cons_self hlength).1.perm List.perm_middle.symm
  | @takenBack b c hb hc hsize =>
    have hapart := (List.nodup_append.1 h.sound.nodup.of_map).2.2
    have hother : b ∉ others := fun ha => hapart b ha b hb rfl
    have hlive := List.mem_append_right others hb
    obtain ⟨m₁, hfree, hleft, -⟩ := h.deallocate hlive
    rw [deallocate_of_locate (h.sound.locate hlive) hc hsize] at hfree
    obtain rfl := (Prod.mk.inj hfree).2
    rwa [List.erase_append_right _ hother] at hleft

/-- A pool that was just made has counted nothing. -/
theorem ledger_of_create {name : String} {size : UInt64} {d d' : Directory}
    (h : create name size d = (.ok p, d')) :
    ledger (d'.memory p.attachment.object) = ⟨0, 0, 0, 0⟩ := by
  rw [ledger, load64_of_create h (by decide) (by decide),
    load64_of_create h (by decide) (by decide), load64_of_create h (by decide) (by decide),
    load64_of_create h (by decide) (by decide)]

/-- A pool that was just made has nothing out. -/
theorem accounted_of_create {name : String} {size : UInt64} {d d' : Directory}
    (h : create name size d = (.ok p, d')) :
    Accounted p (d'.memory p.attachment.object) [] := by
  obtain ⟨hproper, hkept⟩ := kept_fresh h
  refine ⟨hproper, hkept.inside, hkept.sound, ?_, ?_⟩
  · rw [ledger_of_create h]
    rfl
  · rw [ledger_of_create h]
    rfl

end SharedExchange.Pool
