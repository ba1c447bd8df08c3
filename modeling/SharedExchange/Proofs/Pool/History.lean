import Mathlib.Tactic
import SharedExchange.Proofs.Pool.Accounts

/-! # The blocks of a pool over time

A block that was once cut stays where it is, with the size it was cut with, whether it is in use or
not. So the blocks of a later time are those of an earlier one and those that were cut in between,
and a block is cut only to be handed out at once (`Advances`). The blocks that fill everything below
the cursor are therefore the ones that were handed out at some time
(`Usage.mem_blocks_iff`). -/

namespace SharedExchange.Pool

variable {p : Pool} {m m' : Memory} {taken taken' blocks blocks' : List UInt64}
  {stack stack' : Nat → List UInt64} {start stop stop' : Nat} {b : BlockRef} {n : UInt64}
  {live : List BlockRef}

/-! ## Tilings that grow -/

/-- Between a place and itself there are no tiles. -/
theorem Tiles.eq_nil (h : Tiles p m stop stop blocks) : blocks = [] := by
  cases blocks with
  | nil => rfl
  | cons a blocks =>
    have hmin := h.minBlock_le List.mem_cons_self
    have hbounds := h.bounds List.mem_cons_self
    rw [minBlock] at hmin
    omega

/-- A tiling that goes further and has the same sizes starts with the same blocks. -/
theorem Tiles.exists_more (h : Tiles p m stop start blocks) (h' : Tiles p m' stop' start blocks')
    (hstop : stop ≤ stop') (hsizes : ∀ a ∈ blocks, p.blockSize a m' = p.blockSize a m) :
    ∃ more, blocks' = blocks ++ more ∧ Tiles p m' stop' stop more := by
  induction blocks generalizing start blocks' with
  | nil =>
    obtain rfl : start = stop := h
    exact ⟨blocks', rfl, h'⟩
  | cons a blocks ih =>
    have hmin := h.minBlock_le List.mem_cons_self
    have hbounds := h.bounds List.mem_cons_self
    obtain ⟨ha, -, hrest⟩ := h
    rw [minBlock] at hmin
    cases blocks' with
    | nil =>
      -- there is a block to come, so the longer tiling is not at its end
      have hend : start = stop' := h'
      omega
    | cons a' blocks' =>
      obtain ⟨ha', -, hrest'⟩ := h'
      obtain rfl : a' = a := UInt64.toNat_inj.1 (ha'.trans ha.symm)
      rw [extent_congr (hsizes a' List.mem_cons_self)] at hrest'
      obtain ⟨more, rfl, hmore⟩ := ih hrest hrest' fun b hb => hsizes b (List.mem_cons_of_mem _ hb)
      exact ⟨more, rfl, hmore⟩

/-! ## One step -/

/-- All blocks keep their sizes, and the cursor stays or moves behind one block more, which is then
in use. -/
structure Advances (p : Pool) (m m' : Memory) (blocks taken' : List UInt64) : Prop where
  sizes : ∀ a ∈ blocks, p.blockSize a m' = p.blockSize a m
  cursor : m'.load64 bumpAt = m.load64 bumpAt ∨
    m.load64 bumpAt ∈ taken' ∧ (m'.load64 bumpAt).toNat =
      (m.load64 bumpAt).toNat + p.extent m' (m.load64 bumpAt)

/-- What does not change does not lose a block. -/
theorem Advances.refl (p : Pool) (m : Memory) (blocks taken' : List UInt64) :
    Advances p m m blocks taken' := ⟨fun _ _ => rfl, .inl rfl⟩

/-- The blocks after a step are those before it and those that are in use then. -/
theorem Divided.mem_blocks_iff (h : Divided p m taken blocks stack)
    (h' : Divided p m' taken' blocks' stack') (hadvances : Advances p m m' blocks taken')
    (a : UInt64) : a ∈ blocks' ↔ a ∈ blocks ∨ a ∈ taken' := by
  have hstop : (m.load64 bumpAt).toNat ≤ (m'.load64 bumpAt).toNat := by
    rcases hadvances.cursor with hsame | ⟨-, hmoved⟩
    · rw [hsame]
    · omega
  obtain ⟨more, hblocks, hmore⟩ := h.tiles.exists_more h'.tiles hstop hadvances.sizes
  constructor
  · intro ha
    rw [hblocks, List.mem_append] at ha
    rcases ha with ha | ha
    · exact .inl ha
    · refine .inr ?_
      rcases hadvances.cursor with hsame | ⟨htaken, hmoved⟩
      · -- nothing lies behind the old cursor
        rw [hsame] at hmore
        rw [hmore.eq_nil] at ha
        cases ha
      · -- only the block that the cursor moved behind does
        cases more with
        | nil => cases ha
        | cons c more =>
          obtain ⟨hc, -, hrest⟩ := hmore
          obtain rfl := UInt64.toNat_inj.1 hc
          rw [hmoved] at hrest
          rw [hrest.eq_nil, List.mem_singleton] at ha
          rwa [ha]
  · rintro (ha | ha)
    · rw [hblocks]
      exact List.mem_append_left _ ha
    · exact h'.mem_of_taken ha

/-! ## What each action does -/

/-- Counting a block changes the two counters only, word by word. -/
theorem load64_countedMemory {start : UInt64} {position : Nat}
    (hcount : position + 8 ≤ allocationsAt ∨ allocationsAt + 8 ≤ position)
    (hbytes : position + 8 ≤ allocatedBytesAt ∨ allocatedBytesAt + 8 ≤ position) :
    (p.countedMemory start m).load64 position = m.load64 position :=
  Memory.load64_congr fun i _ _ => get_countedMemory (by omega) (by omega)

/-- The header of a block stands where nothing is written when another one is handed out. -/
theorem Divided.blockSize_allocate (hp : Based p) (h : Divided p m taken blocks stack)
    (halloc : p.allocate n m = (.ok b, m')) {a : UInt64} (ha : a ∈ blocks) :
    p.blockSize a m' = p.blockSize a m := by
  obtain ⟨c, hc, placed, hplace, rfl⟩ := eq_of_allocate halloc
  have hdata := hp.header_le
  have hbounds := h.tiles.bounds ha
  have hmin := h.tiles.minBlock_le ha
  simp only [signature] at hdata
  rw [minBlock] at hmin
  refine (load64_countedMemory (.inr ?_) (.inr ?_)).trans
    (Memory.load64_congr fun i hlow hhigh => ?_)
  · rw [blockAt, allocationsAt]
    omega
  · rw [blockAt, allocatedBytesAt]
    omega
  · rw [blockAt] at hlow hhigh
    refine get_place hc hplace (.inr ?_) (.inr ?_) (.inr ?_) (.inl ?_)
    · rw [bumpAt]
      omega
    · rw [bumpAllocationsAt]
      omega
    · rw [headAt, classCount]
      omega
    · rw [blockAt]
      omega

/-- Allocating keeps all blocks, and may add one. -/
theorem Divided.advances_allocate (hp : Based p) (h : Divided p m taken blocks stack)
    (hample : Ample m) (halloc : p.allocate n m = (.ok b, m')) :
    Advances p m m' blocks (b.start :: taken) := by
  refine ⟨fun a ha => h.blockSize_allocate hp halloc ha, ?_⟩
  obtain ⟨c, hc, placed, hplace, rfl⟩ := eq_of_allocate halloc
  have hcounted : (p.countedMemory b.start placed).load64 bumpAt = placed.load64 bumpAt :=
    load64_countedMemory (.inl (by decide)) (.inl (by decide))
  obtain hcut | ⟨d, -, hd, ⟨top, popped⟩, hpop, heq⟩ := place?_eq_some hc hplace
  · -- a new block, between the old cursor and the new one
    right
    rw [cut?_eq] at hcut
    split at hcut
    · cases hcut
    · obtain ⟨hstart, rfl⟩ := Prod.mk.inj (Option.some.inj hcut)
      have hsize : p.blockSize (m.load64 bumpAt) (p.countedMemory b.start (p.cutMemory c m)) =
          classSize c := by
        rw [countedMemory, Memory.modify64, blockSize_store64 hp (by decide), Memory.modify64,
          blockSize_store64 hp (by decide), blockSize_cutMemory]
      refine ⟨?_, ?_⟩
      · rw [hstart]
        exact List.mem_cons_self
      · rw [hcounted, load64_bump_cutMemory hp, toNat_bump_add hample hc,
          extent_eq hc hsize]
  · -- a block off a chain, and the cursor stays
    left
    rw [pop?] at hpop
    split at hpop
    · cases hpop
    · obtain ⟨-, rfl⟩ := Prod.mk.inj heq
      obtain ⟨-, rfl⟩ := Prod.mk.inj (Option.some.inj hpop)
      rw [hcounted, Memory.modify64, Memory.load64_store64_of_disjoint _ _ (.inl (by decide)),
        Memory.load64_store64_of_disjoint _ _ (.inl (by rw [headAt, bumpAt]; omega))]

/-- Writing the bytes of a block in use. -/
theorem Divided.advances_store (hp : Based p) (h : Divided p m taken blocks stack)
    (hb : b.start ∈ taken) (hwithin : b.Within p m) {bytes : List UInt8}
    (hlength : bytes.length ≤ b.size.toNat) :
    Advances p m (m.store (p.bytesAt b) bytes) blocks taken' := by
  have hfits := hwithin.size_le
  have hplace := bytesAt_eq hwithin
  refine ⟨fun a ha => ?_, .inl (load64_store_bytes hp hwithin bytes (by decide))⟩
  exact h.blockSize_store_inside hb (Nat.le_of_eq hplace.symm) (by omega) ha

/-- Freeing keeps all blocks. -/
theorem Divided.advances_free (hp : Based p) (h : Divided p m taken blocks stack) {c : Nat}
    (hc : c < classCount) {a : UInt64} (ha : a ∈ blocks) :
    Advances p m (p.freedMemory c a m) blocks taken' := by
  refine ⟨fun d hd => ?_, .inl (load64_freedMemory hp c a m (by decide))⟩
  exact UInt64.toNat_inj.1 (h.extent_freedMemory hp hc ha hd)

/-- Handing out a block and writing into it at once. -/
theorem Divided.advances_allocateWith (hp : Based p)
    (h : Divided p m (live.map BlockRef.start) blocks stack) (hwithin : ∀ b ∈ live, b.Within p m)
    (hample : Ample m) (halloc : p.allocate n m = (.ok b, m')) {bytes : List UInt8}
    (hlength : bytes.length ≤ b.size.toNat) :
    Advances p m (m'.store (p.bytesAt b) bytes) blocks ((b :: live).map BlockRef.start) := by
  have hsound : Sound p m live := ⟨blocks, stack, h, hwithin⟩
  obtain ⟨blocks', stack', hdiv', hwithin'⟩ := hsound.allocate hp hample halloc
  have hfirst : Advances p m m' blocks ((b :: live).map BlockRef.start) :=
    h.advances_allocate hp hample halloc
  have hsecond : Advances p m' (m'.store (p.bytesAt b) bytes) blocks'
      ((b :: live).map BlockRef.start) :=
    hdiv'.advances_store hp (List.mem_map_of_mem List.mem_cons_self)
      (hwithin' b List.mem_cons_self) hlength
  -- the bytes lie in the new block, so neither the cursor nor a header is touched
  have hcursor : (m'.store (p.bytesAt b) bytes).load64 bumpAt = m'.load64 bumpAt :=
    load64_store_bytes hp (hwithin' b List.mem_cons_self) bytes (by decide)
  refine ⟨fun a ha => ?_, ?_⟩
  · have ha' := (h.mem_blocks_iff hdiv' hfirst a).2 (.inl ha)
    rw [hsecond.sizes a ha', hfirst.sizes a ha]
  · rw [hcursor]
    refine hfirst.cursor.imp_right ?_
    rintro ⟨htaken, hmoved⟩
    rw [extent_congr (hsecond.sizes _ (hdiv'.mem_of_taken htaken))]
    exact ⟨htaken, hmoved⟩

/-- Whatever is asked of a pool, its blocks stay, and one more at most is cut and in use. -/
theorem Divided.advances_perform (hp : Based p)
    (h : Divided p m (live.map BlockRef.start) blocks stack) (hwithin : ∀ b ∈ live, b.Within p m)
    (hample : Ample m) (action : Action) : Advances p m (p.perform m live action).1 blocks
      ((p.perform m live action).2.map BlockRef.start) := by
  have hsound : Sound p m live := ⟨blocks, stack, h, hwithin⟩
  have hdone := hsound.performed hp hample (List.Subset.refl live) action
  generalize p.perform m live action = after at hdone ⊢
  cases hdone with
  | nothing => exact Advances.refl ..
  | @stored b bytes hb hlength =>
    exact h.advances_store hp (List.mem_map_of_mem hb) (hwithin b hb) hlength
  | handedOut halloc => exact h.advances_allocate hp hample halloc
  | handedOutWith halloc hlength =>
    exact h.advances_allocateWith hp hwithin hample halloc hlength
  | takenBack hb hc hsize =>
    exact h.advances_free hp hc (h.mem_of_taken (List.mem_map_of_mem hb))

/-! ## A pool in use -/

namespace Usage

variable {u : Usage} {events : List Event}

/-- A block was handed out during the events: at some time between them, it was in use. -/
def HandedOut (u : Usage) (events : List Event) (start : UInt64) : Prop :=
  ∃ earlier, earlier <+: events ∧ start ∈ (u.run earlier).live.map BlockRef.start

/-- No event takes a handle away. -/
theorem mem_handles_step {q : Pool} (hq : q ∈ u.handles) (event : Event) :
    q ∈ (u.step event).handles := by
  cases event with
  | attach name =>
    rw [Usage.step]
    dsimp only
    split
    · split
      · exact List.mem_cons_of_mem _ hq
      · exact hq
    · exact hq
  | act handle action =>
    rw [Usage.step]
    split <;> exact hq

/-- Whoever has a handle keeps it. -/
theorem mem_handles_run {q : Pool} (hq : q ∈ u.handles) (events : List Event) :
    q ∈ (u.run events).handles := by
  induction events generalizing u with
  | nil => exact hq
  | cons event events ih => exact ih (mem_handles_step hq event)

/-- A further event is the last one. -/
theorem run_concat (u : Usage) (events : List Event) (event : Event) :
    u.run (events ++ [event]) = (u.run events).step event := List.foldl_concat ..

/-- What was handed out up to an event was so before it, or is in use behind it. -/
theorem handedOut_concat {event : Event} {start : UInt64} :
    u.HandedOut (events ++ [event]) start ↔ u.HandedOut events start ∨
      start ∈ (u.run (events ++ [event])).live.map BlockRef.start := by
  constructor
  · rintro ⟨earlier, hprefix, hlive⟩
    rcases List.prefix_concat_iff.1 hprefix with rfl | hprefix
    · exact .inr hlive
    · exact .inl ⟨earlier, hprefix, hlive⟩
  · rintro (⟨earlier, hprefix, hlive⟩ | hlive)
    · exact ⟨earlier, hprefix.trans (List.prefix_append ..), hlive⟩
    · exact ⟨_, List.prefix_rfl, hlive⟩

/-- Every event lets the blocks stay and adds one at most. -/
theorem Kept.advances (hp : Proper p) (h : Kept p u)
    (hdiv : Divided p u.memory (u.live.map BlockRef.start) blocks stack) (event : Event) :
    Advances p u.memory (u.step event).memory blocks
      ((u.step event).live.map BlockRef.start) := by
  obtain ⟨hmemory, -⟩ | ⟨-, action, -, hmemory, hlive⟩ := step_cases h.agree event
  · rw [hmemory]
    exact Advances.refl ..
  · have hwithin := h.sound.within
    rw [hmemory, hlive]
    exact hdiv.advances_perform hp.toBased hwithin (hdiv.ample hp) action

/-- When a pool starts without blocks, its blocks are at any time those that were handed out until
then, in use or not. -/
theorem mem_blocks_iff (hp : Proper p) (h : Kept p u) (hfresh : u.memory.load64 bumpAt = 0)
    (events : List Event)
    (hdiv : Divided p (u.run events).memory ((u.run events).live.map BlockRef.start) blocks stack)
    (start : UInt64) : start ∈ blocks ↔ u.HandedOut events start := by
  induction events using List.reverseRecOn generalizing blocks stack with
  | nil =>
    have hblocks : blocks = [] := by
      have htiles := hdiv.tiles
      rw [show (u.run []).memory = u.memory from rfl, hfresh] at htiles
      exact htiles.eq_nil
    constructor
    · intro hstart
      rw [hblocks] at hstart
      cases hstart
    · rintro ⟨earlier, hprefix, hlive⟩
      rw [List.prefix_nil.1 hprefix] at hlive
      exact hdiv.mem_of_taken hlive
  | append_singleton events event ih =>
    have hkept := h.run hp events
    obtain ⟨blocks', stack', hdiv', -⟩ := hkept.sound
    have hadvances := hkept.advances hp hdiv' event
    rw [handedOut_concat, ← ih hdiv', run_concat]
    rw [run_concat] at hdiv
    exact hdiv'.mem_blocks_iff hdiv hadvances start

end Usage

end SharedExchange.Pool
