import Mathlib.Tactic
import SharedExchange.Proofs.Pool.Serving

/-! # Blocks that come back in reverse

Blocks of one class that are given back come back in the opposite order when as many requests of
this class follow: each is on top of the chain of its class when its turn comes
(`Divided.givesBack`, `Divided.reusesAll`). The links for this stand in the blocks themselves,
whatever their users left there, and afterwards all chains are what they were before
(`Usage.reuses_of_run`). -/

namespace SharedExchange.Pool

variable {p q : Pool} {m m' m'' : Memory} {taken blocks rest : List UInt64} {n : UInt64}
  {stack : Nat → List UInt64} {b : BlockRef} {c : Nat}

/-! ## Giving back and asking again -/

/-- Blocks are given back one after the other, each by its reference and through some handle, and
none is refused. -/
inductive GivesBack : List (Pool × BlockRef) → Memory → Memory → Prop
  | nil {m : Memory} : GivesBack [] m m
  | cons {q : Pool} {b : BlockRef} {returned : List (Pool × BlockRef)} {m m' m'' : Memory}
      (hfreed : q.deallocate b m = (.ok (), m')) (hrest : GivesBack returned m' m'') :
    GivesBack ((q, b) :: returned) m m''

/-- A request for `n` bytes is served with the block that `b` referred to. It counts as a hit, and
no new block is cut. -/
structure Reuses (q : Pool) (n : UInt64) (b : BlockRef) (m m' : Memory) : Prop where
  allocate_eq : q.allocate n m = (.ok ⟨b.offset, n⟩, m')
  cacheHits_eq : m'.load64 cacheHitsAt = m.load64 cacheHitsAt + 1
  bumpAllocations_eq : m'.load64 bumpAllocationsAt = m.load64 bumpAllocationsAt
  bump_eq : m'.load64 bumpAt = m.load64 bumpAt

/-- Requests are served one after the other, each with the block of the reference in its place. -/
inductive ReusesAll : List (Pool × UInt64) → List BlockRef → Memory → Memory → Prop
  | nil {m : Memory} : ReusesAll [] [] m m
  | cons {q : Pool} {n : UInt64} {b : BlockRef} {requests : List (Pool × UInt64)}
      {bs : List BlockRef} {m m' m'' : Memory} (hfirst : Reuses q n b m m')
      (hrest : ReusesAll requests bs m' m'') : ReusesAll ((q, n) :: requests) (b :: bs) m m''

/-- Giving back a block does not depend on the hold. -/
theorem deallocate_reattach (p : Pool) (attachment : Attachment) (b : BlockRef) (m : Memory) :
    ({ p with attachment := attachment } : Pool).deallocate b m = p.deallocate b m := rfl

/-- The first block of a chain is at its top. -/
theorem Linked.top_eq {top top' : UInt64} (h : Linked p m top rest) (h' : Linked p m' top' rest) :
    top = top' := by
  cases rest with
  | nil => exact Eq.trans h (Eq.symm h')
  | cons a rest => exact h.1.trans h'.1.symm

/-! ## What becomes of the chain -/

namespace Divided

/-- Blocks of a class that are given back are piled up on its chain. -/
theorem givesBack (hp : Based p) (hc : c < classCount) {returned : List (Pool × BlockRef)}
    (hagree : ∀ r ∈ returned, r.1 = { p with attachment := r.1.attachment })
    (hwithin : ∀ r ∈ returned, r.2.Within p m)
    (hsize : ∀ r ∈ returned, p.blockSize r.2.start m = classSize c)
    (h : Divided p m (returned.map (·.2.start) ++ taken) blocks stack) :
    ∃ m', GivesBack returned m m' ∧ Divided p m' taken blocks
      (Function.update stack c ((returned.map (·.2.start)).reverse ++ stack c)) := by
  induction returned generalizing m stack with
  | nil => exact ⟨m, .nil, by simpa using h⟩
  | cons r returned ih =>
    obtain ⟨q, b⟩ := r
    rw [List.map_cons, List.cons_append] at h
    have hb : b.start ∈ b.start :: (returned.map (·.2.start) ++ taken) := List.mem_cons_self
    have hclass := hsize _ List.mem_cons_self
    have hlocate := h.locate_of_taken hb (hwithin _ List.mem_cons_self)
    have hfreed : q.deallocate b m = (.ok (), p.freedMemory c b.start m) := by
      have hq : q = { p with attachment := q.attachment } := hagree _ List.mem_cons_self
      rw [hq, deallocate_reattach]
      exact deallocate_of_locate hlocate hc hclass
    -- the other blocks keep their sizes
    have hkept : ∀ r ∈ returned,
        p.blockSize r.2.start (p.freedMemory c b.start m) = p.blockSize r.2.start m := by
      intro r hr
      have htaken : r.2.start ∈ b.start :: (returned.map (·.2.start) ++ taken) :=
        List.mem_cons_of_mem _ (List.mem_append_left _ (List.mem_map_of_mem hr))
      have hadvances : Advances p m (p.freedMemory c b.start m) blocks taken :=
        h.advances_free hp hc (h.mem_of_taken hb)
      exact hadvances.sizes _ (h.mem_of_taken htaken)
    obtain ⟨m', hrest, hdiv⟩ := ih (fun r hr => hagree r (List.mem_cons_of_mem _ hr))
      (fun r hr => by
        have hold := hwithin r (List.mem_cons_of_mem _ hr)
        refine ⟨hold.offset_eq, ?_⟩
        rw [extent_congr (hkept r hr)]
        exact hold.size_le)
      (fun r hr => (hkept r hr).trans (hsize r (List.mem_cons_of_mem _ hr)))
      (h.free hp hc hclass)
    refine ⟨m', .cons hfreed hrest, ?_⟩
    rw [Function.update_idem, Function.update_self] at hdiv
    rwa [List.map_cons, List.reverse_cons, List.append_assoc, List.singleton_append]

/-- A request of a class whose chain has a block is served with the block at the top. -/
theorem reuses (hp : Based p) (hc : c < classCount) (h : Divided p m taken blocks stack)
    (hstack : stack c = b.start :: rest) (hn : needed n = classBytes c) :
    ∃ m', Reuses p n b m m' ∧
      Divided p m' (b.start :: taken) blocks (Function.update stack c rest) := by
  have hstart : b.start ∈ stack c := by
    rw [hstack]
    exact List.mem_cons_self
  -- the block lies in the pool, so the pool is not too small for the request
  have hclass : p.requestClass? n = some c := by
    have hbounds := h.tiles.bounds (h.mem_of_stack hc hstart)
    have hbump := h.bump_le
    rw [needed_eq] at hn
    have hroom := le_classBytes_sizeClass (n.toNat + blockHeader)
    rw [extent_eq hc (h.classed c hc _ hstart), ← hn] at hbounds
    have hlargest : ¬classBytes (classCount - 1) < needed n := by
      rw [needed_eq, hn, classBytes_lt_iff]
      omega
    rw [requestClass?_eq, if_neg (not_or.2 ⟨by omega, hlargest⟩), classBytes_inj.1 hn]
  have hplace : p.place? c m = some (b.start,
      (m.store64 (headAt c) (m.load64 (p.linkAt b.start))).modify64 cacheHitsAt (· + 1)) := by
    rw [place?, h.pop?_eq hc, hstack]
    rfl
  have hoffset : b.start + UInt64.ofNat blockHeader = b.offset := UInt64.sub_add_cancel ..
  have hfar : ∀ position, position + 8 ≤ headAt 0 →
      (m.store64 (headAt c) (m.load64 (p.linkAt b.start))).load64 position =
        m.load64 position := by
    intro position hlow
    refine Memory.load64_store64_of_disjoint _ _ (.inl ?_)
    rw [headAt] at hlow ⊢
    omega
  have hpopped : Divided p ((m.store64 (headAt c) (m.load64 (p.linkAt b.start))).modify64
      cacheHitsAt (· + 1)) (b.start :: taken) blocks (Function.update stack c rest) :=
    (h.pop hp hc hstack).count hp _ (by decide) (by decide)
  refine ⟨_, ⟨?_, ?_, ?_, ?_⟩, hpopped.counted hp b.start⟩
  · rw [allocate, hclass, Option.bind_some, hplace]
    simp only [hoffset]
    rfl
  · rw [load64_countedMemory (.inr (by decide)) (.inl (by decide)), Memory.modify64,
      Memory.load64_store64_same, hfar _ (by decide)]
  · rw [load64_countedMemory (.inr (by decide)) (.inl (by decide)), Memory.modify64,
      Memory.load64_store64_of_disjoint _ _ (.inr (by decide)), hfar _ (by decide)]
  · rw [load64_countedMemory (.inl (by decide)) (.inl (by decide)), Memory.modify64,
      Memory.load64_store64_of_disjoint _ _ (.inl (by decide)), hfar _ (by decide)]

/-- Requests of a class are served with the blocks of its chain from the top on. -/
theorem reusesAll (hp : Based p) (hc : c < classCount) {requests : List (Pool × UInt64)}
    {bs : List BlockRef} (h : Divided p m taken blocks stack)
    (hagree : ∀ r ∈ requests, r.1 = { p with attachment := r.1.attachment })
    (hn : ∀ r ∈ requests, needed r.2 = classBytes c) (hlength : requests.length = bs.length)
    (hstack : stack c = bs.map BlockRef.start ++ rest) :
    ∃ m', ReusesAll requests bs m m' ∧
      Divided p m' (bs.map BlockRef.start ++ taken) blocks (Function.update stack c rest) := by
  induction requests generalizing m bs taken stack with
  | nil =>
    obtain rfl := List.eq_nil_of_length_eq_zero hlength.symm
    refine ⟨m, .nil, ?_⟩
    rw [List.map_nil, List.nil_append] at hstack ⊢
    rwa [← hstack, Function.update_eq_self]
  | cons r requests ih =>
    obtain ⟨q, n⟩ := r
    obtain ⟨b, bs, rfl⟩ := List.exists_cons_of_length_eq_add_one hlength.symm
    rw [List.map_cons, List.cons_append] at hstack
    obtain ⟨m', hfirst, hdiv⟩ := h.reuses hp hc hstack (hn _ List.mem_cons_self)
    obtain ⟨m'', hrest, hdone⟩ := ih hdiv (fun r hr => hagree r (List.mem_cons_of_mem _ hr))
      (fun r hr => hn r (List.mem_cons_of_mem _ hr)) (Nat.succ.inj hlength)
      (Function.update_self ..)
    have hserved : Reuses q n b m m' := by
      refine ⟨?_, hfirst.cacheHits_eq, hfirst.bumpAllocations_eq, hfirst.bump_eq⟩
      have hq : q = { p with attachment := q.attachment } := hagree _ List.mem_cons_self
      rw [hq, allocate_reattach]
      exact hfirst.allocate_eq
    rw [Function.update_idem] at hdone
    exact ⟨m'', .cons hserved hrest, hdone.perm_taken List.perm_middle⟩

end Divided

/-! ## A pool in use -/

namespace Usage

variable {u : Usage} {d d' : Directory} {name : String} {size : UInt64}
  {returned : List (Pool × BlockRef)} {requests : List (Pool × UInt64)}

/-- However a pool has been used until now: when different blocks of one class are given back,
through whichever handles, and as many requests of this class follow, the blocks come back in the
opposite order, each as a hit and with the cursor in its place, and then the tops of all chains and
the chains themselves are those from before. -/
theorem reuses_of_run (h : create name size d = (.ok p, d'))
    (hrun : Relation.ReflTransGen (Next p fun _ => True) (fresh p d') u) (hc : c < classCount)
    (hreturned : ∀ r ∈ returned, r.1 ∈ u.handles ∧ r.2 ∈ u.live ∧
      p.blockSize r.2.start u.memory = classSize c)
    (hnodup : (returned.map Prod.snd).Nodup)
    (hrequests : ∀ r ∈ requests, r.1 ∈ u.handles ∧ needed r.2 = classBytes c)
    (hlength : requests.length = returned.length) :
    ∃ m' m'', GivesBack returned u.memory m' ∧
      ReusesAll requests (returned.map Prod.snd).reverse m' m'' ∧
      (∀ d < classCount, m''.load64 (headAt d) = u.memory.load64 (headAt d)) ∧
      ∃ blocks stack, Divided p u.memory (u.live.map BlockRef.start) blocks stack ∧
        Divided p m'' (u.live.map BlockRef.start) blocks stack := by
  have htended := (tended_fresh h).run hrun
  have hp := htended.based
  obtain ⟨blocks, stack, hdiv, hwithin⟩ := htended.sound
  -- the blocks that are given back, and the others that are in use
  have hsub : returned.map Prod.snd ⊆ u.live := by
    intro b hb
    obtain ⟨r, hr, rfl⟩ := List.mem_map.1 hb
    exact (hreturned r hr).2.1
  obtain ⟨picked, hpicked, hsublist⟩ := hnodup.subperm hsub
  obtain ⟨others, hsplit⟩ := hsublist.exists_perm_append
  have hothers := hsplit.trans (hpicked.append_right others)
  have hlive : (u.live.map BlockRef.start).Perm
      (returned.map (·.2.start) ++ others.map BlockRef.start) := by
    have hstarts := hothers.map BlockRef.start
    rwa [List.map_append, List.map_map] at hstarts
  obtain ⟨m', hgives, hpiled⟩ := (hdiv.perm_taken hlive).givesBack hp hc
    (fun r hr => htended.agree _ (hreturned r hr).1)
    (fun r hr => hwithin _ (hreturned r hr).2.1) (fun r hr => (hreturned r hr).2.2)
  have hstack : Function.update stack c ((returned.map (·.2.start)).reverse ++ stack c) c =
      (returned.map Prod.snd).reverse.map BlockRef.start ++ stack c := by
    rw [Function.update_self, List.map_reverse, List.map_map]
    rfl
  obtain ⟨m'', hreuses, hdone⟩ := hpiled.reusesAll hp hc
    (fun r hr => htended.agree _ (hrequests r hr).1) (fun r hr => (hrequests r hr).2)
    (by rw [List.length_reverse, List.length_map, hlength]) hstack
  have hagain : ((returned.map Prod.snd).reverse.map BlockRef.start ++
      others.map BlockRef.start).Perm (u.live.map BlockRef.start) := by
    refine List.Perm.trans ?_ hlive.symm
    rw [List.map_reverse, List.map_map]
    exact (List.reverse_perm _).append_right _
  rw [Function.update_idem, Function.update_eq_self] at hdone
  exact ⟨m', m'', hgives, hreuses, fun e he => (hdone.linked e he).top_eq (hdiv.linked e he),
    blocks, stack, hdiv, hdone.perm_taken hagain⟩

/-- Somebody else opens the pool. Three blocks are cut, the first is given back, and the second is
written. -/
def mixing : List Event :=
  [.attach "blocks", .act 0 (.allocate 1), .act 0 (.allocate 1), .act 0 (.allocate 48),
    .act 0 (.deallocate ⟨16, 1⟩), .act 0 (.write ⟨80, 1⟩ [255])]

/-- Two blocks are given back on top of the one that was there, and come back in reverse for
requests of other sizes. -/
theorem reuses_of_run_mixed : ∃ p d', create "blocks" 256 Directory.empty = (.ok p, d') ∧
    let u := (fresh p d').run mixing
    u.handles.length = 2 ∧ u.memory.load64 (headAt 0) = 0 ∧
    ∀ q₀ ∈ u.handles, ∀ q₁ ∈ u.handles, ∃ m' m'',
      GivesBack [(q₀, ⟨80, 1⟩), (q₁, ⟨144, 48⟩)] u.memory m' ∧
      ReusesAll [(q₁, 7), (q₀, 0)] [⟨144, 48⟩, ⟨80, 1⟩] m' m'' ∧ m''.load64 (headAt 0) = 0 := by
  let p : Pool := ⟨⟨0, "blocks", 1024, true⟩, 256, 768⟩
  let d' := (create "blocks" 256 Directory.empty).2
  have hcreate : create "blocks" 256 Directory.empty = (.ok p, d') := rfl
  refine ⟨p, d', hcreate, ?_⟩
  intro u
  have hevents : u.live = [⟨144, 48⟩, ⟨80, 1⟩] ∧ u.handles.length = 2 ∧
      u.memory.load64 (headAt 0) = 0 ∧ p.blockSize 64 u.memory = classSize 0 ∧
      p.blockSize 128 u.memory = classSize 0 := by
    decide +kernel
  obtain ⟨hlive, hhandles, htop, hsecond, hthird⟩ := hevents
  refine ⟨hhandles, htop, fun q₀ hq₀ q₁ hq₁ => ?_⟩
  have hrun : Relation.ReflTransGen (Next p fun _ => True) (fresh p d') u := by
    refine reflTransGen_run fun event _ => ?_
    cases event <;> trivial
  have hneeded : needed 7 = classBytes 0 ∧ needed 0 = classBytes 0 := by decide +kernel
  have hreturned : ∀ r ∈ [(q₀, (⟨80, 1⟩ : BlockRef)), (q₁, ⟨144, 48⟩)],
      r.1 ∈ u.handles ∧ r.2 ∈ u.live ∧ p.blockSize r.2.start u.memory = classSize 0 := by
    rw [hlive]
    simp only [List.forall_mem_cons]
    exact ⟨⟨hq₀, by decide, hsecond⟩, ⟨hq₁, by decide, hthird⟩, List.forall_mem_nil _⟩
  have hrequests : ∀ r ∈ [(q₁, (7 : UInt64)), (q₀, 0)],
      r.1 ∈ u.handles ∧ needed r.2 = classBytes 0 := by
    simp only [List.forall_mem_cons]
    exact ⟨⟨hq₁, hneeded.1⟩, ⟨hq₀, hneeded.2⟩, List.forall_mem_nil _⟩
  have hnodup : [(⟨80, 1⟩ : BlockRef), ⟨144, 48⟩].Nodup := by decide
  obtain ⟨m', m'', hgives, hreuses, hheads, -⟩ := reuses_of_run hcreate hrun (by decide) hreturned
    hnodup hrequests rfl
  exact ⟨m', m'', hgives, hreuses, (hheads 0 (by decide)).trans htop⟩

end Usage

end SharedExchange.Pool
