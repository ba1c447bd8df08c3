import Mathlib.Tactic
import SharedExchange.Proofs.Pool.Sparing

/-! # The order in which blocks were freed

Which blocks were given back and have not been handed out again, and in which order, is a matter of
what the users did: `remember` carries that list over one step of a pool in use, and `Recalls` over
all of them, without a look at the bytes of the pool. The chains of freed blocks hold the same: the
chain of a class has the blocks of the list that have the size of this class, in the order of the
list (`Cached`). Every action keeps this (`Cached.perform`), and so does every run
(`Usage.Tended.exists_cached`). -/

namespace SharedExchange.Pool

variable {p : Pool} {m m' : Memory} {taken blocks cached : List UInt64} {stack : Nat → List UInt64}
  {a start : UInt64} {b : BlockRef} {live live' : List BlockRef} {n : UInt64} {c : Nat}

/-! ## The chains as parts of one list -/

/-- The blocks of a list that have the size of a class. -/
def chain (p : Pool) (m : Memory) (cached : List UInt64) (c : Nat) : List UInt64 :=
  cached.filter fun a => p.extent m a = classBytes c

/-- The freed blocks, last freed first: the chain of a class has those of its size in this order. -/
structure Cached (p : Pool) (m : Memory) (taken blocks cached : List UInt64) : Prop where
  divided : Divided p m taken blocks (p.chain m cached)
  subset : ∀ a ∈ cached, a ∈ blocks

/-- The blocks of a class are those of its size. -/
theorem mem_chain : a ∈ p.chain m cached c ↔ a ∈ cached ∧ p.extent m a = classBytes c := by
  rw [chain, List.mem_filter, decide_eq_true_eq]

/-- The chains depend on the sizes in the headers of the blocks alone. -/
theorem chain_congr (h : ∀ a ∈ cached, p.extent m' a = p.extent m a) (c : Nat) :
    p.chain m' cached c = p.chain m cached c :=
  List.filter_congr fun a ha => by rw [h a ha]

/-- A block in front of the others is in front of the chain of its class, and in no other. -/
theorem chain_cons (h : p.extent m start = classBytes c) :
    p.chain m (start :: cached) =
      Function.update (p.chain m cached) c (start :: p.chain m cached c) := by
  funext d
  by_cases hdc : d = c
  · subst hdc
    rw [Function.update_self, chain, List.filter_cons_of_pos (by simpa using h), chain]
  · have hother : ¬p.extent m start = classBytes d := by
      rw [h, classBytes_inj]
      exact Ne.symm hdc
    rw [Function.update_of_ne hdc, chain, List.filter_cons_of_neg (by simpa using hother), chain]

/-- A division says nothing about classes that there are not. -/
theorem Divided.of_stack {stack' : Nat → List UInt64} (h : Divided p m taken blocks stack)
    (hsame : ∀ c < classCount, stack' c = stack c) : Divided p m taken blocks stack' where
  size_eq := h.size_eq
  dataStart_eq := h.dataStart_eq
  tiles := h.tiles
  bump_le := h.bump_le
  linked c hc := by
    rw [hsame c hc]
    exact h.linked c hc
  classed c hc := by
    rw [hsame c hc]
    exact h.classed c hc
  places := by
    rw [List.flatMap_congr fun c hc => hsame c (List.mem_range.1 hc)]
    exact h.places

/-- A freed block is on the chain of its class. -/
theorem Cached.exists_chain (h : Cached p m taken blocks cached) (ha : a ∈ cached) :
    ∃ c < classCount, p.extent m a = classBytes c ∧ a ∈ p.chain m cached c := by
  obtain ⟨c, hc, hsize⟩ := h.divided.tiles.class_of_mem (h.subset a ha)
  have hextent := extent_eq hc hsize
  exact ⟨c, hc, hextent, mem_chain.2 ⟨ha, hextent⟩⟩

/-- No freed block is in use. -/
theorem Cached.not_mem_taken (h : Cached p m taken blocks cached) (ha : a ∈ cached) :
    a ∉ taken := by
  obtain ⟨c, hc, -, hchain⟩ := h.exists_chain ha
  exact fun htaken => h.divided.not_mem_stack htaken hc hchain

/-! ## What is done to the chains -/

/-- A block that is found was the top of a chain, which is counted as a hit, or it is cut, which is
counted as well. -/
theorem Divided.found (hp : Based p) (h : Divided p m taken blocks stack) (hample : Ample m)
    (hc : c < classCount) (hplace : p.place? c m = some (start, m')) :
    ∃ blocks' stack', Divided p m' (start :: taken) blocks' stack' ∧
      (∀ d, stack d = stack' d ∨ stack d = start :: stack' d) ∧
      (blocks' = blocks ∧ m'.load64 cacheHitsAt = m.load64 cacheHitsAt + 1 ∧
          m'.load64 bumpAllocationsAt = m.load64 bumpAllocationsAt ∨
        blocks' = blocks ++ [start] ∧ m'.load64 cacheHitsAt = m.load64 cacheHitsAt ∧
          m'.load64 bumpAllocationsAt = m.load64 bumpAllocationsAt + 1) := by
  obtain hcut | ⟨d, -, hd, ⟨top, popped⟩, hpop, heq⟩ := place?_eq_some hc hplace
  · rw [cut?_eq] at hcut
    split at hcut
    · cases hcut
    · next hroom =>
      obtain ⟨rfl, rfl⟩ := Prod.mk.inj (Option.some.inj hcut)
      have hdata := hp.header_le
      simp only [signature] at hdata
      refine ⟨_, stack, h.cut hp hample hc hroom, fun _ => .inl rfl, .inr ⟨rfl, ?_, ?_⟩⟩
      · refine p.load64_cutMemory c m (.inr (by decide)) (.inl (by decide)) (.inl ?_)
        rw [blockAt, cacheHitsAt]
        omega
      · -- the counter is moved before the size of the block is written
        rw [cutMemory, Memory.load64_store64_of_disjoint _ _
            (.inl (by rw [linkAt, blockAt, bumpAllocationsAt]; omega)),
          Memory.load64_store64_of_disjoint _ _
            (.inl (by rw [blockAt, bumpAllocationsAt]; omega)),
          Memory.modify64, Memory.load64_store64_same,
          Memory.load64_store64_of_disjoint _ _ (.inr (by decide))]
  · rw [h.pop?_eq hd] at hpop
    obtain ⟨top', htop, hmemory⟩ := Option.map_eq_some_iff.1 hpop
    obtain ⟨rfl, rfl⟩ := Prod.mk.inj hmemory
    obtain ⟨rfl, rfl⟩ := Prod.mk.inj heq
    obtain ⟨rest, hs⟩ := List.head?_eq_some_iff.1 htop
    -- the top of a chain stands behind the counters
    have hfar : ∀ position, position + 8 ≤ headAt 0 →
        (m.store64 (headAt d) (m.load64 (p.linkAt top'))).load64 position = m.load64 position := by
      intro position hlow
      refine Memory.load64_store64_of_disjoint _ _ (.inl ?_)
      rw [headAt] at hlow ⊢
      omega
    refine ⟨blocks, _, (h.pop hp hd hs).count hp _ (by decide) (by decide), fun e => ?_,
      .inl ⟨rfl, ?_, ?_⟩⟩
    · by_cases hed : e = d
      · subst hed
        right
        rw [Function.update_self, hs]
      · left
        rw [Function.update_of_ne hed]
    · rw [Memory.modify64, Memory.load64_store64_same, hfar _ (by decide)]
    · rw [Memory.modify64, Memory.load64_store64_of_disjoint _ _ (.inr (by decide)),
        hfar _ (by decide)]

/-- A block that is handed out is no longer on a chain, and the chains are otherwise the same. -/
theorem Divided.allocated (hp : Based p) (h : Divided p m taken blocks stack) (hample : Ample m)
    (halloc : p.allocate n m = (.ok b, m')) :
    ∃ blocks', Divided p m' (b.start :: taken) blocks'
      fun c => (stack c).filter (· ≠ b.start) := by
  obtain ⟨c, hc, placed, hplace, rfl⟩ := eq_of_allocate halloc
  obtain ⟨blocks', stack', hdiv, hstack, -⟩ := h.found hp hample hc hplace
  refine ⟨blocks', (hdiv.counted hp b.start).of_stack fun d hd => ?_⟩
  have hother : b.start ∉ stack' d := hdiv.not_mem_stack List.mem_cons_self hd
  have hkept : (stack' d).filter (· ≠ b.start) = stack' d :=
    List.filter_eq_self.2 fun a ha => by
      simp only [decide_eq_true_eq]
      exact fun heq => hother (heq ▸ ha)
  rcases hstack d with hsame | hpopped
  · rw [hsame, hkept]
  · rw [hpopped, List.filter_cons_of_neg (by simp), hkept]

/-- A block that is handed out is no longer freed. -/
theorem Cached.allocate (hp : Based p) (h : Cached p m taken blocks cached) (hample : Ample m)
    (halloc : p.allocate n m = (.ok b, m')) :
    ∃ blocks', Cached p m' (b.start :: taken) blocks' (cached.filter (· ≠ b.start)) := by
  have hadvances := h.divided.advances_allocate hp hample halloc
  obtain ⟨blocks', hdiv⟩ := h.divided.allocated hp hample halloc
  refine ⟨blocks', hdiv.of_stack fun c _ => ?_, fun a ha => ?_⟩
  · have hsame : ∀ a ∈ cached, p.extent m' a = p.extent m a := fun a ha =>
      extent_congr (hadvances.sizes a (h.subset a ha))
    rw [chain_congr fun a ha => hsame a (List.mem_of_mem_filter ha), chain, chain,
      List.filter_comm]
  · exact (h.divided.mem_blocks_iff hdiv hadvances a).2
      (.inl (h.subset a (List.mem_of_mem_filter ha)))

/-- A block that is given back is the one freed last. -/
theorem Cached.free (hp : Based p) (h : Cached p m (start :: taken) blocks cached)
    (hc : c < classCount) (hsize : p.blockSize start m = classSize c) :
    Cached p (p.freedMemory c start m) taken blocks (start :: cached) := by
  have hstart := h.divided.mem_of_taken List.mem_cons_self
  have hsizes : ∀ a ∈ blocks, p.extent (p.freedMemory c start m) a = p.extent m a := fun a ha =>
    h.divided.extent_freedMemory hp hc hstart ha
  have hextent : p.extent (p.freedMemory c start m) start = classBytes c := by
    rw [hsizes start hstart, extent_eq hc hsize]
  have hsame : p.chain (p.freedMemory c start m) cached = p.chain m cached :=
    funext (chain_congr fun a ha => hsizes a (h.subset a ha))
  constructor
  · rw [chain_cons hextent, hsame]
    exact h.divided.free hp hc hsize
  · intro a ha
    rcases List.mem_cons.1 ha with rfl | ha
    · exact hstart
    · exact h.subset a ha

/-- Writing the bytes of a block in use is no concern of the freed blocks. -/
theorem Cached.store (hp : Based p) (h : Cached p m (live.map BlockRef.start) blocks cached)
    (hb : b ∈ live) (hwithin : b.Within p m) {bytes : List UInt8}
    (hlength : bytes.length ≤ b.size.toNat) :
    Cached p (m.store (p.bytesAt b) bytes) (live.map BlockRef.start) blocks cached := by
  have hadvances : Advances p m (m.store (p.bytesAt b) bytes) blocks [] :=
    h.divided.advances_store hp (List.mem_map_of_mem hb) hwithin hlength
  refine ⟨(h.divided.sameLinks_store hp hb hwithin hlength).1.of_stack fun c _ => ?_, h.subset⟩
  exact chain_congr (fun a ha => extent_congr (hadvances.sizes a (h.subset a ha))) c

/-! ## What the users remember -/

/-- The freed blocks after the references in use have changed, when `cached` were those before: a
block that is no longer in use was freed last, and one that is in use is not among them. -/
def remember (live live' : List BlockRef) (cached : List UInt64) : List UInt64 :=
  (live.map BlockRef.start ++ cached).filter (· ∉ live'.map BlockRef.start)

/-- Nothing is remembered when the blocks in use stay the same. -/
theorem Cached.remember_self (h : Cached p m (live.map BlockRef.start) blocks cached) :
    remember live live cached = cached := by
  have hlive : (live.map BlockRef.start).filter (· ∉ live.map BlockRef.start) = [] :=
    List.filter_eq_nil_iff.2 fun a ha => by simpa using ha
  have hcached : cached.filter (· ∉ live.map BlockRef.start) = cached :=
    List.filter_eq_self.2 fun a ha => by simpa using h.not_mem_taken ha
  rw [remember, List.filter_append, hlive, hcached, List.nil_append]

/-- A block that is handed out is no longer among the cached ones. -/
theorem Cached.remember_cons (h : Cached p m (live.map BlockRef.start) blocks cached)
    (b : BlockRef) : remember live (b :: live) cached = cached.filter (· ≠ b.start) := by
  have hlive : (live.map BlockRef.start).filter (· ∉ (b :: live).map BlockRef.start) = [] :=
    List.filter_eq_nil_iff.2 fun a ha => by
      have hlater : a ∈ (b :: live).map BlockRef.start := List.mem_cons_of_mem _ ha
      simp only [hlater, not_true_eq_false, decide_false, Bool.false_eq_true, not_false_eq_true]
  have hcached : cached.filter (· ∉ (b :: live).map BlockRef.start) =
      cached.filter (· ≠ b.start) :=
    List.filter_congr fun a ha => by
      have htaken := h.not_mem_taken ha
      simp only [List.map_cons, List.mem_cons, htaken, or_false, ne_eq]
  rw [remember, List.filter_append, hlive, hcached, List.nil_append]

/-- A block that is given back comes first among the cached ones. -/
theorem Cached.remember_erase (h : Cached p m (live.map BlockRef.start) blocks cached)
    (hb : b ∈ live) : remember live (live.erase b) cached = b.start :: cached := by
  have hperm : (live.map BlockRef.start).Perm (b.start :: (live.erase b).map BlockRef.start) :=
    (List.perm_cons_erase hb).map _
  have hnodup : (b.start :: (live.erase b).map BlockRef.start).Nodup :=
    hperm.nodup_iff.1 (List.nodup_append.1 h.divided.nodup).1
  have hfreed : b.start ∉ (live.erase b).map BlockRef.start := (List.nodup_cons.1 hnodup).1
  -- of the blocks that were in use, only the one that was given back is not
  have hlive : (live.map BlockRef.start).filter (· ∉ (live.erase b).map BlockRef.start) =
      [b.start] := by
    refine List.perm_singleton.1 ((hperm.filter _).trans ?_)
    rw [List.filter_cons_of_pos (by simpa using hfreed),
      List.filter_eq_nil_iff.2 fun a ha => by simpa using ha]
  have hcached : cached.filter (· ∉ (live.erase b).map BlockRef.start) = cached :=
    List.filter_eq_self.2 fun a ha => by
      have htaken := h.not_mem_taken ha
      simp only [decide_eq_true_eq]
      exact fun hlive => htaken (hperm.mem_iff.2 (List.mem_cons_of_mem _ hlive))
  rw [remember, List.filter_append, hlive, hcached, List.singleton_append]

/-- The order of the taken blocks does not matter to the caches. -/
theorem Cached.perm {taken' : List UInt64} (h : Cached p m taken blocks cached)
    (hperm : taken.Perm taken') : Cached p m taken' blocks cached :=
  ⟨h.divided.perm_taken hperm, h.subset⟩

/-- Whatever is asked of a pool, the chains hold what its users remember. -/
theorem Cached.perform (hp : Based p) (h : Cached p m (live.map BlockRef.start) blocks cached)
    (hwithin : ∀ b ∈ live, b.Within p m) (hample : Ample m) (action : Action) :
    ∃ blocks', Cached p (p.perform m live action).1
      ((p.perform m live action).2.map BlockRef.start) blocks'
      (remember live (p.perform m live action).2 cached) := by
  have hsound : Sound p m live := ⟨blocks, _, h.divided, hwithin⟩
  have hdone := hsound.performed hp hample (List.Subset.refl live) action
  generalize p.perform m live action = after at hdone ⊢
  cases hdone with
  | nothing => exact ⟨blocks, by rwa [h.remember_self]⟩
  | @stored b bytes hb hlength =>
    rw [h.remember_self]
    exact ⟨blocks, h.store hp hb (hwithin b hb) hlength⟩
  | @handedOut n b m' halloc =>
    rw [h.remember_cons b]
    exact h.allocate hp hample halloc
  | @handedOutWith n b m' bytes halloc hlength =>
    obtain ⟨blocks', hgiven⟩ := h.allocate hp hample halloc
    have hcached : Cached p m' ((b :: live).map BlockRef.start) blocks'
      (cached.filter (· ≠ b.start)) := hgiven
    rw [h.remember_cons b]
    exact ⟨blocks', hcached.store hp List.mem_cons_self
      ((hsound.allocate hp hample halloc).within b List.mem_cons_self) hlength⟩
  | takenBack hb hc hsize =>
    rw [h.remember_erase hb]
    exact ⟨blocks, (h.perm ((List.perm_cons_erase hb).map _)).free hp hc hsize⟩

/-! ## A pool in use -/

namespace Usage

variable {u u' : Usage}

/-- The freed blocks as the users remember them, last freed first, after what happened to a pool
since `start`. -/
inductive Recalls (p : Pool) (start : Usage) : Usage → List UInt64 → Prop
  | start : Recalls p start start []
  | next {u u' : Usage} {cached : List UInt64} (h : Recalls p start u cached)
      (hnext : Next p (fun _ => True) u u') : Recalls p start u' (remember u.live u'.live cached)

/-- Whatever happened can be remembered. -/
theorem exists_recalls (hrun : Relation.ReflTransGen (Next p fun _ => True) u u') :
    ∃ cached, Recalls p u u' cached := by
  induction hrun with
  | refl => exact ⟨[], .start⟩
  | tail _ hnext ih =>
    obtain ⟨cached, hrecalls⟩ := ih
    exact ⟨_, hrecalls.next hnext⟩

/-- A run that is recalled is a run. -/
theorem Recalls.run (h : Recalls p u u' cached) :
    Relation.ReflTransGen (Next p fun _ => True) u u' := by
  induction h with
  | start => exact .refl
  | next _ hnext ih => exact ih.tail hnext

/-- The freed blocks after events, when there were none before. -/
def freed (u : Usage) (events : List Event) : Usage × List UInt64 :=
  events.foldl (fun x event =>
    (x.1.step event, remember x.1.live (x.1.step event).live x.2)) (u, [])

/-- Events are remembered one after the other. -/
theorem recalls_freed (events : List Event) :
    (u.freed events).1 = u.run events ∧ Recalls p u (u.run events) (u.freed events).2 := by
  induction events using List.reverseRecOn with
  | nil => exact ⟨rfl, .start⟩
  | append_singleton events event ih =>
    obtain ⟨hrun, hrecalls⟩ := ih
    have hstep : Next p (fun _ => True) (u.run events) ((u.run events).step event) := by
      cases event with
      | attach name => exact .attach name
      | act handle action => exact .act handle trivial
    rw [run_concat, freed, List.foldl_concat, ← freed, hrun]
    exact ⟨rfl, hrecalls.next hstep⟩

/-- When nothing was freed at the start, the chains hold what the users remember ever after. -/
theorem Tended.exists_cached (h : Tended p u)
    (hfresh : Cached p u.memory (u.live.map BlockRef.start) blocks [])
    (hrecalls : Recalls p u u' cached) :
    ∃ blocks', Cached p u'.memory (u'.live.map BlockRef.start) blocks' cached := by
  induction hrecalls with
  | start => exact ⟨blocks, hfresh⟩
  | @next w w' cached hbefore hnext ih =>
    obtain ⟨blocks', hcached⟩ := ih
    have htended := h.run hbefore.run
    obtain ⟨hmemory, hlive⟩ | ⟨action, -, hmemory, hlive⟩ := htended.next_cases hnext
    · rw [hmemory, hlive, hcached.remember_self]
      exact ⟨blocks', hcached⟩
    · rw [hmemory, hlive]
      exact hcached.perform h.based htended.sound.within htended.ample action

end Usage

end SharedExchange.Pool
