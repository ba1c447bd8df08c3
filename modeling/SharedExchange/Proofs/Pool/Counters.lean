import Mathlib.Tactic
import SharedExchange.Proofs.Pool.Serving

/-! # What a pool counts

The words in the header of a pool count requests and bytes. A `Tally` counts the same in numbers
without bound, from nothing but the references that are in use before and after each step
(`Usage.Tallied`). `Booked` says that the words are the tally and that as many blocks were ever cut
as were counted. Every action keeps this (`Booked.perform`), and so does every run
(`Usage.Tended.booked`).

Together the blocks in use, the blocks on the chains and the bytes above the cursor are the data
area (`Divided.weight_add_idle`). The bytes in use that a pool reports are a difference of two
words, and it takes this difference for zero when the first word is the smaller one. So the report
is right as long as both words have started over equally often, and zero else (`toNat_inUse`,
`Usage.stats_of_run`). A pool of a power of two comes to that when it is handed out as one block and
taken back often enough (`Usage.exists_cycled`). -/

namespace SharedExchange.Pool

variable {p : Pool} {m m' : Memory} {blocks : List UInt64}
  {stack : Nat → List UInt64} {start n : UInt64} {b : BlockRef} {live : List BlockRef} {c : Nat}

/-! ## Bytes of blocks -/

/-- The blocks of a tiling have as many bytes as there are between its ends. -/
theorem Tiles.sum_extent {start stop : Nat} (h : Tiles p m stop start blocks) :
    start + (blocks.map (p.extent m)).sum = stop := by
  induction blocks generalizing start with
  | nil => exact h
  | cons b blocks ih =>
    rw [List.map_cons, List.sum_cons, ← Nat.add_assoc]
    exact ih h.2.2

/-- How many bytes the blocks on the chains take together, their headers included. -/
def idle (p : Pool) (m : Memory) (stack : Nat → List UInt64) : Nat :=
  (((List.range classCount).flatMap stack).map (p.extent m)).sum

/-- The blocks in use, the blocks on the chains and the bytes above the cursor are all there is. -/
theorem Divided.weight_add_idle (h : Divided p m (live.map BlockRef.start) blocks stack) :
    p.weight m live + p.idle m stack + (p.untouched m).toNat = p.size.toNat := by
  have htiles := h.tiles.sum_extent
  have hplaces := (h.places.map (p.extent m)).sum_eq
  have hbump := h.bump_le
  rw [List.map_append, List.sum_append, List.map_map] at hplaces
  have hweight : ((live.map (p.extent m ∘ BlockRef.start)).sum) = p.weight m live := rfl
  rw [untouched, UInt64.toNat_sub_of_le _ _ (UInt64.le_iff_toNat_le.2 hbump), idle]
  omega

/-! ## Tallies -/

/-- How many blocks and bytes were handed out and taken back. Unlike the words of a header, these
numbers do not start over. -/
structure Tally where
  handedOut : Nat
  takenBack : Nat
  bytesOut : Nat
  bytesBack : Nat

namespace Tally

variable {t : Tally}

/-- The words that stand for a tally. -/
def ledger (t : Tally) : Ledger :=
  ⟨.ofNat t.handedOut, .ofNat t.takenBack, .ofNat t.bytesOut, .ofNat t.bytesBack⟩

/-- Nothing happened yet. -/
def none : Tally := ⟨0, 0, 0, 0⟩

/-- A block of a size is handed out. -/
def handOut (t : Tally) (size : Nat) : Tally :=
  { t with handedOut := t.handedOut + 1, bytesOut := t.bytesOut + size }

/-- A block of a size is taken back. -/
def takeBack (t : Tally) (size : Nat) : Tally :=
  { t with takenBack := t.takenBack + 1, bytesBack := t.bytesBack + size }

/-- Handing out a block is the same in a tally and in its ledger. -/
theorem ledger_handOut (t : Tally) (size : UInt64) :
    (t.handOut size.toNat).ledger = t.ledger.handOut size := by
  simp only [ledger, handOut, Ledger.handOut, UInt64.ofNat_add, UInt64.ofNat_one,
    UInt64.ofNat_toNat]

/-- Taking back a block is the same in a tally and in its ledger. -/
theorem ledger_takeBack (t : Tally) (size : UInt64) :
    (t.takeBack size.toNat).ledger = t.ledger.takeBack size := by
  simp only [ledger, takeBack, Ledger.takeBack, UInt64.ofNat_add, UInt64.ofNat_one,
    UInt64.ofNat_toNat]

/-- The tally after the references in use have changed from `live` to `live'`, whose blocks have
`bytes` and `bytes'` bytes: what is more was handed out, and what is less was taken back. -/
def carry (t : Tally) (live live' : List BlockRef) (bytes bytes' : Nat) : Tally where
  handedOut := t.handedOut + (live'.length - live.length)
  takenBack := t.takenBack + (live.length - live'.length)
  bytesOut := t.bytesOut + (bytes' - bytes)
  bytesBack := t.bytesBack + (bytes - bytes')

/-- A tally is carried over unchanged when the blocks in use stay the same. -/
@[simp] theorem carry_self (t : Tally) (live : List BlockRef) (bytes : Nat) :
    t.carry live live bytes bytes = t := by
  simp only [carry, Nat.sub_self, Nat.add_zero]

/-- One more block in use was handed out. -/
theorem carry_cons (t : Tally) (b : BlockRef) (live : List BlockRef) (size bytes : Nat) :
    t.carry live (b :: live) bytes (size + bytes) = t.handOut size := by
  rw [carry, handOut, Tally.mk.injEq, List.length_cons]
  omega

/-- One block less in use was taken back. -/
theorem carry_erase (t : Tally) (hb : b ∈ live) (size bytes : Nat) :
    t.carry live (live.erase b) (size + bytes) bytes = t.takeBack size := by
  have hlength := List.length_erase_add_one hb
  rw [carry, takeBack, Tally.mk.injEq]
  omega

/-- As many blocks and bytes as are in use were handed out and not taken back. -/
structure Balances (t : Tally) (live : List BlockRef) (bytes : Nat) : Prop where
  blocks_eq : t.handedOut = t.takenBack + live.length
  bytes_eq : t.bytesOut = t.bytesBack + bytes

/-- A tally that balances still does when it is carried over. -/
theorem Balances.carry {live live' : List BlockRef} {bytes bytes' : Nat}
    (h : t.Balances live bytes) : (t.carry live live' bytes bytes').Balances live' bytes' := by
  obtain ⟨hblocks, hbytes⟩ := h
  constructor
  · simp only [Tally.carry]
    omega
  · simp only [Tally.carry]
    omega

end Tally

/-! ## The books of a pool -/

/-- The words of the header are the tally, and as many blocks were cut as were counted. -/
structure Booked (p : Pool) (m : Memory) (live : List BlockRef) (blocks : List UInt64)
    (t : Tally) : Prop where
  divided : ∃ stack, Divided p m (live.map BlockRef.start) blocks stack
  ledger_eq : ledger m = t.ledger
  cut_eq : m.load64 bumpAllocationsAt = UInt64.ofNat blocks.length
  cut_le : blocks.length ≤ t.handedOut
  reused_eq : m.load64 cacheHitsAt = UInt64.ofNat (t.handedOut - blocks.length)

namespace Booked

variable {t : Tally}

/-- A block that is allocated is booked. -/
theorem allocate (hp : Based p) (h : Booked p m live blocks t) (hample : Ample m)
    (halloc : p.allocate n m = (.ok b, m')) :
    ∃ blocks', Booked p m' (b :: live) blocks' (t.handOut (p.extent m' b.start)) := by
  obtain ⟨⟨stack, hdiv⟩, hledger, hcut, hle, hreused⟩ := h
  obtain ⟨c, hc, placed, hplace, rfl⟩ := eq_of_allocate halloc
  obtain ⟨blocks', stack', hdiv', -, hfound⟩ := hdiv.found hp hample hc hplace
  have hdivided : Divided p (p.countedMemory b.start placed) ((b :: live).map BlockRef.start)
      blocks' stack' := hdiv'.counted hp b.start
  -- which of the two counters moved is known before the block is counted
  have hcut' : (p.countedMemory b.start placed).load64 bumpAllocationsAt =
      placed.load64 bumpAllocationsAt := load64_countedMemory (.inr (by decide)) (.inl (by decide))
  have hreused' : (p.countedMemory b.start placed).load64 cacheHitsAt =
      placed.load64 cacheHitsAt := load64_countedMemory (.inr (by decide)) (.inl (by decide))
  refine ⟨blocks', ⟨stack', hdivided⟩, ?_, ?_, ?_, ?_⟩
  · rw [ledger_countedMemory hp, ledger_place hp hc hplace, hledger, extent,
      Tally.ledger_handOut]
  · obtain ⟨rfl, -, hword⟩ | ⟨rfl, -, hword⟩ := hfound
    · rw [hcut', hword, hcut]
    · rw [hcut', hword, hcut, List.length_append, List.length_singleton, UInt64.ofNat_add,
        UInt64.ofNat_one]
  · obtain ⟨rfl, -⟩ | ⟨rfl, -⟩ := hfound
    · exact Nat.le_succ_of_le hle
    · rw [List.length_append, List.length_singleton]
      exact Nat.succ_le_succ hle
  · rw [hreused', Tally.handOut]
    obtain ⟨rfl, hword, -⟩ | ⟨rfl, hword, -⟩ := hfound
    · rw [hword, hreused, Nat.sub_add_comm hle, UInt64.ofNat_add, UInt64.ofNat_one]
    · rw [hword, hreused, List.length_append, List.length_singleton, Nat.add_sub_add_right]

/-- A block that is freed is booked. -/
theorem free (hp : Based p) (h : Booked p m live blocks t) (hb : b ∈ live)
    (hc : c < classCount) (hsize : p.blockSize b.start m = classSize c) :
    Booked p (p.freedMemory c b.start m) (live.erase b) blocks
      (t.takeBack (p.extent m b.start)) := by
  obtain ⟨⟨stack, hdiv⟩, hledger, hcut, hle, hreused⟩ := h
  have hperm : (live.map BlockRef.start).Perm (b.start :: (live.erase b).map BlockRef.start) :=
    (List.perm_cons_erase hb).map _
  refine ⟨⟨_, (hdiv.perm_taken hperm).free hp hc hsize⟩, ?_, ?_, hle, ?_⟩
  · rw [ledger_freedMemory hp, hledger, extent, Tally.ledger_takeBack]
  · rw [load64_freedMemory hp c b.start m (by decide), hcut]
  · rw [load64_freedMemory hp c b.start m (by decide), hreused, Tally.takeBack]

/-- Writing to a block in use needs no booking. -/
theorem store (hp : Based p) (h : Booked p m live blocks t) (hb : b ∈ live)
    (hwithin : b.Within p m) {bytes : List UInt8} (hlength : bytes.length ≤ b.size.toNat) :
    Booked p (m.store (p.bytesAt b) bytes) live blocks t := by
  obtain ⟨⟨stack, hdiv⟩, hledger, hcut, hle, hreused⟩ := h
  refine ⟨⟨stack, (hdiv.sameLinks_store hp hb hwithin hlength).1⟩, ?_, ?_, hle, ?_⟩
  · rw [ledger_store hp hwithin, hledger]
  · rw [load64_store_bytes hp hwithin bytes (by decide), hcut]
  · rw [load64_store_bytes hp hwithin bytes (by decide), hreused]

/-- Whatever is asked of a pool, it is booked. -/
theorem perform (hp : Based p) (h : Booked p m live blocks t)
    (hwithin : ∀ b ∈ live, b.Within p m) (hample : Ample m) (action : Action) :
    ∃ blocks', Booked p (p.perform m live action).1 (p.perform m live action).2 blocks'
      (t.carry live (p.perform m live action).2 (p.weight m live)
        (p.weight (p.perform m live action).1 (p.perform m live action).2)) := by
  obtain ⟨stack, hdiv⟩ := h.divided
  have hsound : Sound p m live := ⟨blocks, stack, hdiv, hwithin⟩
  have hdone := hsound.performed hp hample (List.Subset.refl live) action
  generalize p.perform m live action = after at hdone ⊢
  cases hdone with
  | nothing =>
    rw [Tally.carry_self]
    exact ⟨blocks, h⟩
  | @stored b bytes hb hlength =>
    rw [hdiv.weight_store hb (hwithin b hb) hlength, Tally.carry_self]
    exact ⟨blocks, h.store hp hb (hwithin b hb) hlength⟩
  | @handedOut n b m' halloc =>
    rw [hdiv.weight_allocate hp hample halloc, Tally.carry_cons]
    exact h.allocate hp hample halloc
  | @handedOutWith n b m' bytes halloc hlength =>
    obtain ⟨blocks', hbooked⟩ := h.allocate hp hample halloc
    have hwithin' := (hsound.allocate hp hample halloc).within b List.mem_cons_self
    obtain ⟨stack', hdiv'⟩ := hbooked.divided
    rw [hdiv'.weight_store List.mem_cons_self hwithin' hlength,
      hdiv.weight_allocate hp hample halloc, Tally.carry_cons]
    exact ⟨blocks', hbooked.store hp List.mem_cons_self hwithin' hlength⟩
  | @takenBack b c hb hc hsize =>
    rw [hdiv.weight_freedMemory hp hb hc, weight_erase hb, Tally.carry_erase t hb]
    exact ⟨blocks, h.free hp hb hc hsize⟩

end Booked

/-! ## What the pool reports -/

/-- The difference of two words, zero when the first is the smaller one, is the difference of the
numbers they stand for when both went over the largest word equally often, and zero else. -/
theorem toNat_inUse {out back : Nat} (hle : back ≤ out) (hlt : out - back < 2 ^ 64) :
    (if UInt64.ofNat out < UInt64.ofNat back then 0
      else UInt64.ofNat out - UInt64.ofNat back).toNat =
      if out / 2 ^ 64 = back / 2 ^ 64 then out - back else 0 := by
  have hwords : UInt64.ofNat out < UInt64.ofNat back ↔ out % 2 ^ 64 < back % 2 ^ 64 := by
    rw [UInt64.lt_iff_toNat_lt, UInt64.toNat_ofNat', UInt64.toNat_ofNat']
  by_cases hsmaller : out % 2 ^ 64 < back % 2 ^ 64
  · rw [if_pos (hwords.2 hsmaller), if_neg (by omega)]
    rfl
  · rw [if_neg (hwords.not.2 hsmaller), if_pos (by omega),
      UInt64.toNat_sub_of_le _ _ (UInt64.not_lt.1 (hwords.not.2 hsmaller)), UInt64.toNat_ofNat',
      UInt64.toNat_ofNat']
    omega

/-- The report of a pool says how many blocks were handed out and taken back, from where, and how
many there are now. Every byte of the data area is in a block in use, in a block on a chain, or
above the cursor. The bytes in use are reported as they are while both counters of bytes went over
the largest word equally often, and as none else, when there are some. -/
structure Reported (p : Pool) (m : Memory) (live : List BlockRef) (t : Tally) : Prop where
  handedOut_eq : (p.stats m).allocations.toNat = t.handedOut
  takenBack_eq : (p.stats m).deallocations.toNat = t.takenBack
  served_eq : (p.stats m).allocations.toNat =
    (p.stats m).cacheHits.toNat + (p.stats m).bumpAllocations.toNat
  live_eq : (p.stats m).allocations.toNat = (p.stats m).deallocations.toNat + live.length
  divided : ∃ blocks stack, Divided p m (live.map BlockRef.start) blocks stack ∧
    (p.stats m).bumpAllocations.toNat = blocks.length ∧
    p.weight m live + p.idle m stack + (p.stats m).bytesUntouched.toNat = p.size.toNat
  inUse_eq : (p.stats m).bytesInUse.toNat =
    if t.bytesOut / 2 ^ 64 = t.bytesBack / 2 ^ 64 then p.weight m live else 0
  weight_pos : t.bytesOut / 2 ^ 64 ≠ t.bytesBack / 2 ^ 64 → 0 < p.weight m live

/-- Another hold on the object makes no difference to what is reported. -/
theorem Reported.reattach {t : Tally} (attachment : Attachment) (h : Reported p m live t) :
    Reported { p with attachment := attachment } m live t := by
  obtain ⟨blocks, stack, hdiv, hcut, hbytes⟩ := h.divided
  exact ⟨h.handedOut_eq, h.takenBack_eq, h.served_eq, h.live_eq,
    ⟨blocks, stack, hdiv.reattach attachment, hcut, hbytes⟩, h.inUse_eq, h.weight_pos⟩

/-- What is booked is reported, as long as the requests can be counted. -/
theorem Booked.reported {t : Tally} (h : Booked p m live blocks t)
    (hbalances : t.Balances live (p.weight m live)) (hfew : t.handedOut < 2 ^ 64) :
    Reported p m live t := by
  obtain ⟨⟨stack, hdiv⟩, hledger, hcut, hle, hreused⟩ := h
  obtain ⟨hblocks, hbytes⟩ := hbalances
  have hall := hdiv.weight_add_idle
  have hsize := p.size.toNat_lt
  -- no more was taken back, cut or found again than was handed out
  have hfew' : t.takenBack < UInt64.size ∧ blocks.length < UInt64.size ∧
      t.handedOut - blocks.length < UInt64.size := by
    rw [UInt64.size]
    omega
  have hallocations : (p.stats m).allocations.toNat = t.handedOut := by
    rw [stats_allocations, hledger, Tally.ledger, UInt64.toNat_ofNat_of_lt' hfew]
  have hdeallocations : (p.stats m).deallocations.toNat = t.takenBack := by
    rw [stats_deallocations, hledger, Tally.ledger, UInt64.toNat_ofNat_of_lt' hfew'.1]
  have hcuts : (p.stats m).bumpAllocations.toNat = blocks.length := by
    have hword : (p.stats m).bumpAllocations = UInt64.ofNat blocks.length := hcut
    rw [hword, UInt64.toNat_ofNat_of_lt' hfew'.2.1]
  have hhits : (p.stats m).cacheHits.toNat = t.handedOut - blocks.length := by
    have hword : (p.stats m).cacheHits = UInt64.ofNat (t.handedOut - blocks.length) := hreused
    rw [hword, UInt64.toNat_ofNat_of_lt' hfew'.2.2]
  have hinUse : (p.stats m).bytesInUse.toNat =
      if t.bytesOut / 2 ^ 64 = t.bytesBack / 2 ^ 64 then t.bytesOut - t.bytesBack else 0 := by
    rw [stats_bytesInUse, hledger, Tally.ledger, toNat_inUse (by omega) (by omega)]
  have hdifference : t.bytesOut - t.bytesBack = p.weight m live := by omega
  have huntouched : (p.stats m).bytesUntouched = p.untouched m := rfl
  refine ⟨hallocations, hdeallocations, ?_, ?_, ⟨blocks, stack, hdiv, hcuts, ?_⟩, ?_, ?_⟩
  · omega
  · omega
  · rw [huntouched, hall]
  · rw [hinUse, hdifference]
  · -- totals that have wrapped unequally differ, so something is in use
    intro hwrapped
    by_contra hnone
    exact hwrapped (by rw [hbytes, Nat.eq_zero_of_not_pos hnone, Nat.add_zero])

/-- A reference that is refused is given back to no effect, and so is one on which the attempt
breaks off. -/
theorem deallocate_error {failure : Failure} (h : p.deallocate b m = (.error failure, m')) :
    m' = m := by
  rw [deallocate] at h
  split at h
  · exact (Prod.mk.inj h).2.symm
  · dsimp only at h
    split at h
    · exact (Prod.mk.inj h).2.symm
    · cases h

/-! ## Filling and emptying a pool -/

/-- All blocks of a pool are as large as the pool, so there is one at most. -/
def Whole (p : Pool) (m : Memory) (live : List BlockRef) : Prop :=
  ∃ blocks cached, Cached p m (live.map BlockRef.start) blocks cached ∧
    ∀ a ∈ blocks, p.extent m a = p.size.toNat

/-- The block that takes all of a pool weighs what the pool does. -/
theorem Whole.weight_eq (h : Whole p m [b]) : p.weight m [b] = p.size.toNat := by
  obtain ⟨blocks, cached, hcached, hwhole⟩ := h
  rw [weight, List.map_singleton, List.sum_singleton]
  exact hwhole _ (hcached.divided.mem_of_taken List.mem_cons_self)

/-- An empty pool is handed out as one block: there is such a block, or room for it. -/
theorem Whole.allocate (hp : Based p) (h : Whole p m []) (hample : Ample m)
    (hrequest : n.toNat + blockHeader = p.size.toNat) (hneeded : needed n = p.size.toNat)
    (hclass : p.size.toNat ≤ classBytes (classCount - 1)) :
    ∃ b m', p.allocate n m = (.ok b, m') ∧ Whole p m' [b] := by
  obtain ⟨blocks, cached, hcached, hwhole⟩ := h
  -- a request that is refused is too large, or there is no block and no room for one
  have hserved : ¬∃ fault, (p.allocate n m).1 = .error fault := by
    rw [hcached.allocate_refused_iff hample, hrequest, hneeded]
    rintro (hlarge | hlarge | ⟨hsmall, hfull⟩)
    · omega
    · omega
    · cases blocks with
      | nil =>
        have hbump : 0 = (m.load64 bumpAt).toNat := hcached.divided.tiles
        omega
      | cons a rest =>
        have hplace := hcached.divided.places.mem_iff.1 (List.mem_cons_self (a := a) (l := rest))
        rw [List.map_nil, List.nil_append, List.mem_flatMap] at hplace
        obtain ⟨c, -, hchain⟩ := hplace
        have hless := hsmall a (mem_chain.1 hchain).1
        rw [hwhole a List.mem_cons_self] at hless
        omega
  cases halloc : p.allocate n m with
  | mk answer m' =>
    cases answer with
    | error fault => exact absurd ⟨fault, by rw [halloc]⟩ hserved
    | ok b =>
      have hadvances := hcached.divided.advances_allocate hp hample halloc
      obtain ⟨blocks', hcached'⟩ := hcached.allocate hp hample halloc
      obtain ⟨-, c, hroom, -, hgiven⟩ := hcached.divided.given_of_allocate hp hample halloc
      refine ⟨b, m', rfl, blocks', _, hcached', fun a ha => ?_⟩
      rcases (hcached.divided.mem_blocks_iff hcached'.divided hadvances a).1 ha with ha | ha
      · rw [extent_congr (hadvances.sizes a ha), hwhole a ha]
      · -- the block has what was asked for, and no block is larger than the pool
        have hbounds := hcached'.divided.tiles.bounds
          (hcached'.divided.mem_of_taken List.mem_cons_self)
        have hbump := hcached'.divided.bump_le
        have hroomy := hgiven.roomy
        rw [List.map_nil, List.mem_singleton] at ha
        rw [ha]
        omega

/-- The block that takes all of a pool can be given back. -/
theorem Whole.deallocate (hp : Based p) (h : Whole p m [b]) (hsound : Sound p m [b]) :
    ∃ m', p.deallocate b m = (.ok (), m') ∧ Whole p m' [] := by
  obtain ⟨blocks, cached, hcached, hwhole⟩ := h
  obtain ⟨c, hc, hclass, hfree⟩ := hsound.deallocate_eq (List.mem_singleton_self b)
  have hmem := hcached.divided.mem_of_taken List.mem_cons_self
  refine ⟨_, hfree, blocks, _, hcached.free hp hc hclass, fun a ha => ?_⟩
  rw [hcached.divided.extent_freedMemory hp hc hmem ha, hwhole a ha]

/-! ## A pool in use -/

namespace Usage

variable {q : Pool} {u u' : Usage} {t : Tally} {d d' : Directory} {name : String} {size : UInt64}

/-- What was handed out and taken back by a pool since `start`. -/
inductive Tallied (p : Pool) (start : Usage) : Usage → Tally → Prop
  | start : Tallied p start start .none
  | next {u u' : Usage} {t : Tally} (h : Tallied p start u t)
      (hnext : Next p (fun _ => True) u u') : Tallied p start u'
        (t.carry u.live u'.live (p.weight u.memory u.live) (p.weight u'.memory u'.live))

/-- Whatever happened can be tallied. -/
theorem exists_tallied (hrun : Relation.ReflTransGen (Next p fun _ => True) u u') :
    ∃ t, Tallied p u u' t := by
  induction hrun with
  | refl => exact ⟨_, .start⟩
  | tail _ hnext ih =>
    obtain ⟨t, htallied⟩ := ih
    exact ⟨_, htallied.next hnext⟩

/-- A run that is tallied is a run. -/
theorem Tallied.run (h : Tallied p u u' t) :
    Relation.ReflTransGen (Next p fun _ => True) u u' := by
  induction h with
  | start => exact .refl
  | next _ hnext ih => exact ih.tail hnext

/-- The tally of a run that starts with nothing balances with what is in use. -/
theorem Tallied.balances (h : Tallied p u u' t) (hnothing : u.live = []) :
    t.Balances u'.live (p.weight u'.memory u'.live) := by
  induction h with
  | start =>
    rw [hnothing]
    exact ⟨rfl, rfl⟩
  | next _ _ ih => exact ih.carry

/-- Whatever happens to a pool, it is booked. -/
theorem Tended.booked (h : Tended p u) (hbooked : Booked p u.memory u.live blocks .none)
    (htallied : Tallied p u u' t) : ∃ blocks', Booked p u'.memory u'.live blocks' t := by
  induction htallied with
  | start => exact ⟨blocks, hbooked⟩
  | next hbefore hnext ih =>
    obtain ⟨blocks', hbooked'⟩ := ih
    have htended := h.run hbefore.run
    obtain ⟨hmemory, hlive⟩ | ⟨action, -, hmemory, hlive⟩ := htended.next_cases hnext
    · rw [hmemory, hlive, Tally.carry_self]
      exact ⟨blocks', hbooked'⟩
    · rw [hmemory, hlive]
      exact hbooked'.perform h.based htended.sound.within htended.ample action

/-- A fresh pool has nothing booked. -/
theorem booked_fresh (h : create name size d = (.ok p, d')) :
    Booked p (fresh p d').memory (fresh p d').live [] .none where
  divided := ⟨_, (cached_fresh h).divided⟩
  ledger_eq := ledger_of_create h
  cut_eq := load64_of_create h (by decide) (by decide)
  cut_le := Nat.le_refl 0
  reused_eq := load64_of_create h (by decide) (by decide)

/-- However a pool has been used until now, and whichever handle is asked: as long as fewer than
2⁶⁴ blocks were handed out, the report says what was handed out and taken back, and a request that
is refused, or a reference that is, changes nothing. -/
theorem stats_of_run (h : create name size d = (.ok p, d'))
    (hrun : Relation.ReflTransGen (Next p fun _ => True) (fresh p d') u) (hq : q ∈ u.handles) :
    (∃ t, Tallied p (fresh p d') u t) ∧
      (∀ t, Tallied p (fresh p d') u t → t.handedOut < 2 ^ 64 → Reported q u.memory u.live t) ∧
      (∀ n fault m', q.allocate n u.memory = (.error fault, m') → m' = u.memory) ∧
      ∀ b failure m', q.deallocate b u.memory = (.error failure, m') → m' = u.memory := by
  have htended := tended_fresh h
  refine ⟨exists_tallied hrun, fun t htallied hfew => ?_, fun n fault m' => allocate_error,
    fun b failure m' => deallocate_error⟩
  obtain ⟨blocks, hbooked⟩ := htended.booked (booked_fresh h) htallied
  have hreported := hbooked.reported (htallied.balances rfl) hfew
  rw [(htended.run hrun).agree q hq]
  exact hreported.reattach q.attachment

/-! ## Rounds -/

/-- A handle that is there performs what it is asked for. -/
theorem step_act {handle : Nat} (hq : u.handles[handle]? = some q) (action : Action) :
    (u.step (.act handle action)).memory = (q.perform u.memory u.live action).1 ∧
      (u.step (.act handle action)).live = (q.perform u.memory u.live action).2 ∧
      (u.step (.act handle action)).handles = u.handles := by
  rw [step, hq]
  exact ⟨Directory.memory_update_same .., rfl, rfl⟩

/-- A pool was handed out `filled` times as one block, and taken back `emptied` times. -/
structure Cycled (p : Pool) (start u : Usage) (filled emptied : Nat) : Prop where
  handles_eq : u.handles = [p]
  whole : Whole p u.memory u.live
  tallied : Tallied p start u
    ⟨filled, emptied, filled * p.size.toNat, emptied * p.size.toNat⟩

section

variable {start : Usage} {filled emptied : Nat}

/-- A step through the only handle on a pool. -/
theorem Cycled.next (h : Cycled p start u filled emptied) {action : Action}
    {live' : List BlockRef} {filled' emptied' : Nat}
    (hdone : p.perform u.memory u.live action = (m', live')) (hwhole : Whole p m' live')
    (hcarry : Tally.carry ⟨filled, emptied, filled * p.size.toNat, emptied * p.size.toNat⟩
      u.live live' (p.weight u.memory u.live) (p.weight m' live') =
        ⟨filled', emptied', filled' * p.size.toNat, emptied' * p.size.toNat⟩) :
    Cycled p start (u.step (.act 0 action)) filled' emptied' ∧
      (u.step (.act 0 action)).live = live' := by
  have hq : u.handles[0]? = some p := by rw [h.handles_eq, List.getElem?_cons_zero]
  obtain ⟨hmemory, hlive, hhandles⟩ := step_act hq action
  have hnext : Next p (fun _ => True) u (u.step (.act 0 action)) :=
    .act 0 trivial
  have htallied := h.tallied.next hnext
  rw [hmemory, hlive, hdone] at htallied
  rw [hdone] at hmemory hlive
  refine ⟨⟨hhandles.trans h.handles_eq, ?_, ?_⟩, hlive⟩
  · rwa [hmemory, hlive]
  · rwa [← hcarry]

/-- All of the pool is handed out once more. -/
theorem Cycled.fill (h : Cycled p start u filled filled) (hstart : Tended p start)
    (hlive : u.live = []) (hrequest : n.toNat + blockHeader = p.size.toNat)
    (hneeded : needed n = p.size.toNat) (hclass : p.size.toNat ≤ classBytes (classCount - 1)) :
    ∃ u' b, Cycled p start u' (filled + 1) filled ∧ u'.live = [b] := by
  have htended := hstart.run h.tallied.run
  have hwhole := h.whole
  rw [hlive] at hwhole
  obtain ⟨b, m', halloc, hwhole'⟩ := hwhole.allocate htended.based
    htended.ample hrequest hneeded hclass
  have hdone : p.perform u.memory u.live (.allocate n) = (m', [b]) := by
    rw [perform, halloc, hlive, receive]
  refine ⟨_, b, h.next hdone hwhole' ?_⟩
  rw [hlive, hwhole'.weight_eq, Nat.add_one_mul, ← Nat.add_zero p.size.toNat]
  exact Tally.carry_cons _ b [] _ 0

/-- All of the pool is taken back. -/
theorem Cycled.empty (h : Cycled p start u (filled + 1) filled) (hstart : Tended p start)
    (hlive : u.live = [b]) :
    ∃ u', Cycled p start u' (filled + 1) (filled + 1) ∧ u'.live = [] := by
  have htended := hstart.run h.tallied.run
  have hwhole := h.whole
  have hsound := htended.sound
  rw [hlive] at hwhole hsound
  obtain ⟨m', hfree, hwhole'⟩ := hwhole.deallocate htended.based hsound
  have herase : [b].erase b = [] := by rw [List.erase_cons_head]
  have hdone : p.perform u.memory u.live (.deallocate b) = (m', []) := by
    rw [perform, hlive, if_pos (List.mem_singleton_self b), hfree]
    simp only [herase]
  have hcarry := Tally.carry_erase ⟨filled + 1, filled, (filled + 1) * p.size.toNat,
    filled * p.size.toNat⟩ (List.mem_singleton_self b) p.size.toNat 0
  rw [herase, Tally.takeBack, Nat.add_one_mul] at hcarry
  refine ⟨_, h.next hdone hwhole' ?_⟩
  rw [hlive, hwhole.weight_eq, Nat.add_one_mul]
  exact hcarry

/-- A pool of a power of two is handed out as one block and taken back any number of times. -/
theorem exists_cycled (h : create name size d = (.ok p, d'))
    (hrequest : n.toNat + blockHeader = p.size.toNat) (hneeded : needed n = p.size.toNat)
    (hclass : p.size.toNat ≤ classBytes (classCount - 1)) (filled : Nat) :
    ∃ u, Cycled p (fresh p d') u filled filled ∧ u.live = [] := by
  induction filled with
  | zero =>
    refine ⟨fresh p d', ⟨rfl, ⟨[], [], cached_fresh h, by simp⟩, ?_⟩, rfl⟩
    rw [Nat.zero_mul]
    exact .start
  | succ filled ih =>
    obtain ⟨u, hcycled, hlive⟩ := ih
    obtain ⟨u', b, hfilled, hlive'⟩ :=
      hcycled.fill (tended_fresh h) hlive hrequest hneeded hclass
    exact hfilled.empty (tended_fresh h) hlive'

end

/-- A pool of 2³⁶ bytes is handed out as one block 2²⁸ times and taken back each time but the last.
The bytes that were handed out are more than a word then, and those taken back are not, so no byte
is reported in use, though none is free. -/
theorem stats_of_run_wrapped : ∃ p d', create "blocks" 68719476736 Directory.empty = (.ok p, d') ∧
    ∃ u t, Tallied p (fresh p d') u t ∧ Reported p u.memory u.live t ∧ t.handedOut = 2 ^ 28 ∧
      p.weight u.memory u.live = 2 ^ 36 ∧ (p.stats u.memory).bytesInUse.toNat = 0 := by
  obtain ⟨p, d', hcreate⟩ :
      ∃ p d', create "blocks" 68719476736 Directory.empty = (.ok p, d') := by
    have hgrants : Directory.empty.Grants "blocks" (wholeSize 68719476736) :=
      Directory.grants_empty (by decide) (by decide) (by decide)
    exact ⟨_, _, create_eq_ok_iff.2 ⟨⟨by decide, by decide⟩, hgrants, rfl, rfl⟩⟩
  obtain ⟨-, -, hp, -⟩ := eq_of_create hcreate
  have hsize : p.size.toNat = 2 ^ 36 := by
    rw [hp]
    rfl
  have hrequest : (68719476720 : UInt64).toNat + blockHeader = p.size.toNat := by
    rw [hsize]
    rfl
  have hneeded : needed 68719476720 = p.size.toNat := by
    rw [hsize]
    decide +kernel
  have hclass : p.size.toNat ≤ classBytes (classCount - 1) := by
    rw [hsize]
    decide
  -- 2²⁸ - 1 times the whole pool is handed out and given back, and then once more handed out
  obtain ⟨u, hcycled, hlive⟩ :=
    exists_cycled hcreate hrequest hneeded hclass (2 ^ 28 - 1)
  obtain ⟨u', b, hfilled, hlive'⟩ :=
    hcycled.fill (tended_fresh hcreate) hlive hrequest hneeded hclass
  have hq : p ∈ u'.handles := by
    rw [hfilled.handles_eq]
    exact List.mem_singleton_self p
  obtain ⟨-, hstats, -⟩ := stats_of_run hcreate hfilled.tallied.run hq
  have hfew : 2 ^ 28 - 1 + 1 < 2 ^ 64 := by decide
  have hreported := hstats _ hfilled.tallied hfew
  -- 2²⁸ times 2³⁶ bytes are 2⁶⁴, so one total has wrapped and the other has not
  have hweight : p.weight u'.memory u'.live = 2 ^ 36 := by
    have hwhole := hfilled.whole
    rw [hlive'] at hwhole ⊢
    rw [hwhole.weight_eq, hsize]
  refine ⟨p, d', hcreate, u', _, hfilled.tallied, hreported, rfl, hweight, ?_⟩
  rw [hreported.inUse_eq, hsize, if_neg (by decide)]

end Usage

end SharedExchange.Pool
