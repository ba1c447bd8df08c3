import Mathlib.Tactic
import SharedExchange.Proofs.Pool.Caching

/-! # Which block serves a request

A request for `n` bytes needs a block of `needed n` bytes, the smallest power of two that has room
for them and the bookkeeping. Whether there is one, and which one is handed out, is said in terms of
the freed blocks and the cursor: `Choice` has the three places where a block is found, in the order
in which they are tried. A request is refused exactly when none of them has a block, or when no pool
of this size could ever have one (`Usage.allocate_of_run`). -/

namespace SharedExchange.Pool

variable {p : Pool} {m m' : Memory} {taken blocks cached : List UInt64} {a start n : UInt64}
  {stack : Nat → List UInt64} {b : BlockRef} {c d : Nat}

/-! ## Sizes of blocks -/

/-- The size of the blocks that a request is served with: the smallest power of two with room for
the bytes and the bookkeeping, and not below the smallest block. -/
def needed (n : UInt64) : Nat := 2 ^ Nat.clog 2 (max (n.toNat + blockHeader) minBlock)

/-- A pool could never serve a request that is larger than the pool or than the largest class. -/
theorem requestClass?_eq (p : Pool) (n : UInt64) :
    p.requestClass? n =
      if p.size.toNat < n.toNat + blockHeader ∨ classBytes (classCount - 1) < needed n then none
      else some (sizeClass (n.toNat + blockHeader)) := by
  have hclass : classBytes (classCount - 1) < needed n ↔
      ¬sizeClass (n.toNat + blockHeader) < classCount := by
    rw [needed, ← classBytes_sizeClass, classBytes_lt_iff, classCount]
    omega
  rw [requestClass?]
  by_cases hlarge : p.size.toNat < n.toNat + blockHeader
  · simp only [hlarge, true_or, if_true]
  · simp only [hlarge, false_or, if_false, hclass]
    exact (ite_not ..).symm

/-- What a request needs is the size of the class that serves it. -/
theorem needed_eq (n : UInt64) : needed n = classBytes (sizeClass (n.toNat + blockHeader)) :=
  (classBytes_sizeClass _).symm

/-! ## Where a block is found -/

/-- The block of `size` bytes that is found: the one freed last among those of this size; else a new
one at the cursor; else the one freed last among those of the next larger size there is. -/
inductive Choice (p : Pool) (m : Memory) (cached : List UInt64) (size : Nat) : UInt64 → Prop
  | exact {start : UInt64} (hfirst : cached.find? (fun a => p.extent m a = size) = some start) :
    Choice p m cached size start
  | fresh (hnone : ∀ a ∈ cached, p.extent m a ≠ size)
      (hroom : (m.load64 bumpAt).toNat + size ≤ p.size.toNat) :
    Choice p m cached size (m.load64 bumpAt)
  | larger {start : UInt64} (hnone : ∀ a ∈ cached, p.extent m a ≠ size)
      (hfull : p.size.toNat < (m.load64 bumpAt).toNat + size) (hlarger : size < p.extent m start)
      (hfirst : cached.find? (fun a => p.extent m a = p.extent m start) = some start)
      (hleast : ∀ a ∈ cached, size < p.extent m a → p.extent m start ≤ p.extent m a) :
    Choice p m cached size start

/-- There is room for a block of a class at the cursor. -/
theorem cut?_eq_none_iff (hample : Ample m) (hc : c < classCount) :
    p.cut? c m = none ↔ p.size.toNat < (m.load64 bumpAt).toNat + classBytes c := by
  rw [cut?_eq, ← toNat_bump_add hample hc, ← UInt64.lt_iff_toNat_lt]
  constructor
  · intro h
    split at h
    · next hfull => exact hfull
    · cases h
  · exact fun hfull => if_pos hfull

/-- The three places where a block is looked for, each when those before have none. -/
theorem place?_cases (h : p.place? c m = some (start, m')) :
    (∃ popped, p.pop? c m = some (start, popped)) ∨
      p.pop? c m = none ∧ ((∃ cut, p.cut? c m = some (start, cut)) ∨
        p.cut? c m = none ∧ ∃ popped, p.popLarger? c m = some (start, popped)) := by
  rw [place?] at h
  split at h
  · next found hpop =>
    obtain ⟨top, popped⟩ := found
    obtain ⟨rfl, -⟩ := Prod.mk.inj (Option.some.inj h)
    exact .inl ⟨popped, hpop⟩
  · next hpop =>
    right
    refine ⟨hpop, ?_⟩
    split at h
    · next found hcut =>
      rw [h] at hcut
      exact .inl ⟨m', hcut⟩
    · next hcut =>
      obtain ⟨⟨top, popped⟩, hfound, heq⟩ := Option.map_eq_some_iff.1 h
      obtain ⟨rfl, -⟩ := Prod.mk.inj heq
      exact .inr ⟨hcut, popped, hfound⟩

namespace Cached

/-- The top of the chain of a class is the block of its size that was freed last. -/
theorem pop?_eq (h : Cached p m taken blocks cached) (hc : c < classCount) :
    p.pop? c m = (cached.find? fun a => p.extent m a = classBytes c).map fun top =>
      (top, m.store64 (headAt c) (m.load64 (p.linkAt top))) := by
  rw [h.divided.pop?_eq hc, chain, List.head?_filter]

/-- Nothing is popped when nothing of that class is cached. -/
theorem pop?_eq_none_iff (h : Cached p m taken blocks cached) (hc : c < classCount) :
    p.pop? c m = none ↔ ∀ a ∈ cached, p.extent m a ≠ classBytes c := by
  rw [h.pop?_eq hc, Option.map_eq_none_iff, List.find?_eq_none]
  simp only [decide_eq_true_eq, ne_eq]

/-- Nothing larger is popped when nothing larger is cached. -/
theorem popLarger?_eq_none_iff (h : Cached p m taken blocks cached) :
    p.popLarger? c m = none ↔
      ∀ d, c < d → d < classCount → ∀ a ∈ cached, p.extent m a ≠ classBytes d := by
  rw [popLarger?, List.findSome?_eq_none_iff]
  constructor
  · intro hnone d hcd hd
    exact (h.pop?_eq_none_iff hd).1 (hnone d (List.mem_range'_1.2 ⟨hcd, by omega⟩))
  · intro hnone d hd
    obtain ⟨hlow, hhigh⟩ := List.mem_range'_1.1 hd
    exact (h.pop?_eq_none_iff (by omega)).2 (hnone d (by omega) (by omega))

/-- There is no block for a request when all freed ones are too small and there is no room at the
cursor. -/
theorem place?_eq_none_iff (h : Cached p m taken blocks cached) (hample : Ample m)
    (hc : c < classCount) :
    p.place? c m = none ↔ (∀ a ∈ cached, p.extent m a < classBytes c) ∧
      p.size.toNat < (m.load64 bumpAt).toNat + classBytes c := by
  have hparts : p.place? c m = none ↔
      p.pop? c m = none ∧ p.cut? c m = none ∧ p.popLarger? c m = none := by
    rw [place?]
    cases p.pop? c m with
    | some found => simp
    | none =>
      cases p.cut? c m with
      | some found => simp
      | none => simp
  -- every free block is on the chain of its class, the same, a smaller or a larger one
  rw [hparts, h.pop?_eq_none_iff hc, cut?_eq_none_iff hample hc, h.popLarger?_eq_none_iff]
  constructor
  · rintro ⟨hsame, hfull, hlarger⟩
    refine ⟨fun a ha => ?_, hfull⟩
    obtain ⟨d, hd, hextent, -⟩ := h.exists_chain ha
    rw [hextent, classBytes_lt_iff]
    by_contra hdc
    rcases Nat.eq_or_lt_of_le (Nat.not_lt.1 hdc) with rfl | hcd
    · exact hsame a ha hextent
    · exact hlarger d hcd hd a ha hextent
  · rintro ⟨hsmall, hfull⟩
    refine ⟨fun a ha => (hsmall a ha).ne, hfull, fun d hcd _ a ha heq => ?_⟩
    have hlt := hsmall a ha
    rw [heq, classBytes_lt_iff] at hlt
    omega

/-- The larger classes are tried in their order, so the first that has a block is the least. -/
theorem eq_of_popLarger? (h : Cached p m taken blocks cached) (hc : c < classCount)
    (hfound : p.popLarger? c m = some (start, m')) :
    classBytes c < p.extent m start ∧
      cached.find? (fun a => p.extent m a = p.extent m start) = some start ∧
      ∀ a ∈ cached, classBytes c < p.extent m a → p.extent m start ≤ p.extent m a := by
  obtain ⟨before, d, behind, hrange, hpop, hbefore⟩ := List.findSome?_eq_some_iff.1 hfound
  have hmem : ∀ e, e ∈ before ++ d :: behind ↔ c < e ∧ e < classCount := by
    intro e
    rw [← hrange, List.mem_range'_1]
    rw [classCount] at hc ⊢
    omega
  obtain ⟨hcd, hd⟩ := (hmem d).1 (List.mem_append_right _ List.mem_cons_self)
  rw [h.pop?_eq hd] at hpop
  obtain ⟨top, hfirst, htop⟩ := Option.map_eq_some_iff.1 hpop
  obtain ⟨rfl, -⟩ := Prod.mk.inj htop
  have hextent : p.extent m top = classBytes d := by
    have htop := List.find?_some hfirst
    rwa [decide_eq_true_eq] at htop
  rw [hextent]
  refine ⟨classBytes_lt_iff.2 hcd, hfirst, fun a ha hlarge => ?_⟩
  obtain ⟨e, he, hsize, -⟩ := h.exists_chain ha
  rw [hsize, classBytes_lt_iff] at hlarge
  rw [hsize, classBytes_le_iff]
  by_contra hed
  -- a smaller class was tried before, and had no block
  have hsorted : (before ++ d :: behind).Pairwise (· < ·) := by
    rw [← hrange]
    exact List.pairwise_lt_range' 1
  have hebefore : e ∈ before := by
    rcases List.mem_append.1 ((hmem e).2 ⟨hlarge, he⟩) with hfront | hback
    · exact hfront
    · rcases List.mem_cons.1 hback with rfl | hback
      · exact absurd (Nat.le_refl _) hed
      · have hlt := List.rel_of_pairwise_cons (List.pairwise_append.1 hsorted).2.1 hback
        omega
  exact (h.pop?_eq_none_iff he).1 (hbefore e hebefore) a ha hsize

/-- The block that is found is the one of the first of the three places that has one. -/
theorem choice_of_place (h : Cached p m taken blocks cached) (hample : Ample m)
    (hc : c < classCount) (hplace : p.place? c m = some (start, m')) :
    Choice p m cached (classBytes c) start := by
  obtain ⟨popped, hpop⟩ | ⟨hpop, ⟨cut, hcut⟩ | ⟨hcut, popped, hlarger⟩⟩ := place?_cases hplace
  · rw [h.pop?_eq hc] at hpop
    obtain ⟨top, hfirst, htop⟩ := Option.map_eq_some_iff.1 hpop
    obtain ⟨rfl, -⟩ := Prod.mk.inj htop
    exact .exact hfirst
  · have hroom : ¬p.size.toNat < (m.load64 bumpAt).toNat + classBytes c := by
      rw [← cut?_eq_none_iff hample hc, hcut]
      exact Option.some_ne_none _
    rw [cut?_eq] at hcut
    split at hcut
    · cases hcut
    · obtain ⟨rfl, -⟩ := Prod.mk.inj (Option.some.inj hcut)
      exact .fresh ((h.pop?_eq_none_iff hc).1 hpop) (Nat.not_lt.1 hroom)
  · obtain ⟨hsize, hfirst, hleast⟩ := h.eq_of_popLarger? hc hlarger
    exact .larger ((h.pop?_eq_none_iff hc).1 hpop) ((cut?_eq_none_iff hample hc).1 hcut) hsize
      hfirst hleast

/-! ## Requests -/

/-- When a request is refused. -/
theorem allocate_refused_iff (h : Cached p m taken blocks cached) (hample : Ample m)
    (n : UInt64) :
    (∃ fault, (p.allocate n m).1 = .error fault) ↔
      p.size.toNat < n.toNat + blockHeader ∨ classBytes (classCount - 1) < needed n ∨
        ((∀ a ∈ cached, p.extent m a < needed n) ∧
          p.size.toNat < (m.load64 bumpAt).toNat + needed n) := by
  have hrefused : (∃ fault, (p.allocate n m).1 = .error fault) ↔
      (p.requestClass? n).bind (fun c => p.place? c m) = none := by
    rw [Pool.allocate]
    cases (p.requestClass? n).bind fun c => p.place? c m with
    | none => simp
    | some found => simp
  rw [hrefused, requestClass?_eq]
  by_cases hnever : p.size.toNat < n.toNat + blockHeader ∨
      classBytes (classCount - 1) < needed n
  · rw [if_pos hnever, ← or_assoc]
    exact iff_of_true rfl (.inl hnever)
  · have hclass : sizeClass (n.toNat + blockHeader) < classCount := by
      obtain ⟨-, hsmall⟩ := not_or.1 hnever
      rw [needed_eq, classBytes_lt_iff, classCount] at hsmall
      rw [classCount]
      omega
    rw [if_neg hnever, Option.bind_some, h.place?_eq_none_iff hample hclass, ← needed_eq,
      ← or_assoc, or_iff_right hnever]

/-- A request that is served is served by the block of the first place that has one. -/
theorem choice_of_allocate (h : Cached p m taken blocks cached) (hample : Ample m)
    (halloc : p.allocate n m = (.ok b, m')) : Choice p m cached (needed n) b.start := by
  rw [Pool.allocate] at halloc
  split at halloc
  · cases halloc
  · next start placed hplace =>
    cases halloc
    obtain ⟨c, hrequest, hfound⟩ := Option.bind_eq_some_iff.1 hplace
    have hstart : (⟨start + UInt64.ofNat blockHeader, n⟩ : BlockRef).start = start :=
      UInt64.add_sub_cancel ..
    have hc := (requestClass?_eq_some hrequest).1
    rw [requestClass?_eq] at hrequest
    split at hrequest
    · cases hrequest
    · rw [hstart, needed_eq, Option.some.inj hrequest]
      exact h.choice_of_place hample hc hfound

end Cached

/-- What a refused request reports. -/
theorem fault_of_allocate {fault : Fault} (h : p.allocate n m = (.error fault, m')) :
    fault = .poolExhausted n.toNat (p.untouched m).toNat := by
  rw [allocate] at h
  split at h
  · cases h
    rfl
  · cases h

/-! ## A pool in use -/

/-- As long as no block was cut, none is freed. -/
theorem Divided.cached_nil (h : Divided p m [] [] stack) : Cached p m [] [] [] := by
  refine ⟨h.of_stack fun c hc => ?_, fun a ha => ha⟩
  have hempty : stack c = [] := List.eq_nil_iff_forall_not_mem.2 fun a ha =>
    List.not_mem_nil (h.mem_of_stack hc ha)
  rw [hempty, chain, List.filter_nil]

namespace Usage

variable {q : Pool} {u : Usage} {d d' : Directory} {name : String} {size : UInt64}

/-- Nothing is cached in a fresh pool. -/
theorem cached_fresh (h : create name size d = (.ok p, d')) :
    Cached p (fresh p d').memory ((fresh p d').live.map BlockRef.start) [] [] := by
  have hbump : (fresh p d').memory.load64 bumpAt = 0 :=
    load64_of_create h (by decide) (by decide)
  obtain ⟨blocks, stack, hdiv, -⟩ := (tended_fresh h).sound
  have htiles := hdiv.tiles
  rw [hbump] at htiles
  obtain rfl := htiles.eq_nil
  exact hdiv.cached_nil

/-- However a pool has been used until now, and whichever handle is asked: a request is refused when
it is larger than the pool or the largest class, or when all freed blocks are too small for it and
there is no room at the cursor, and never else. A refusal changes nothing. Any other request is
served by the block that comes first, which has the room that was asked for and is read at once. -/
theorem allocate_of_run (h : create name size d = (.ok p, d'))
    (hrun : Relation.ReflTransGen (Next p fun _ => True) (fresh p d') u)
    (hq : q ∈ u.handles) (n : UInt64) :
    (∃ cached, Recalls p (fresh p d') u cached) ∧
      ∀ cached, Recalls p (fresh p d') u cached →
        ((∃ fault, (q.allocate n u.memory).1 = .error fault) ↔
          p.size.toNat < n.toNat + blockHeader ∨ classBytes (classCount - 1) < needed n ∨
            ((∀ a ∈ cached, p.extent u.memory a < needed n) ∧
              p.size.toNat < (u.memory.load64 bumpAt).toNat + needed n)) ∧
        (∀ fault m', q.allocate n u.memory = (.error fault, m') → m' = u.memory ∧
          fault = .poolExhausted n.toNat (p.size.toNat - (u.memory.load64 bumpAt).toNat)) ∧
        ∀ b m', q.allocate n u.memory = (.ok b, m') →
          Choice p u.memory cached (needed n) b.start ∧
          b.offset.toNat = b.start.toNat + blockHeader ∧ b.size = n ∧
          n.toNat + blockHeader ≤ p.extent m' b.start ∧
          ∃ bytes, q.read b m' = .ok bytes ∧ bytes.length = n.toNat := by
  have htended := (tended_fresh h).run hrun
  have hample := htended.ample
  refine ⟨exists_recalls hrun, fun cached hrecalls => ?_⟩
  obtain ⟨blocks, hcached⟩ := (tended_fresh h).exists_cached (cached_fresh h) hrecalls
  -- all handles answer as the one that the pool was made with
  have hagree := htended.agree q hq
  have hsame : q.allocate n u.memory = p.allocate n u.memory := by
    rw [hagree, allocate_reattach]
  rw [hsame]
  refine ⟨hcached.allocate_refused_iff hample n, fun fault m' hfails => ?_, fun b m' halloc => ?_⟩
  · refine ⟨allocate_error hfails, ?_⟩
    have hbump := hcached.divided.bump_le
    rw [fault_of_allocate hfails, untouched,
      UInt64.toNat_sub_of_le _ _ (UInt64.le_iff_toNat_le.2 hbump)]
  · have hsound := htended.sound.allocate htended.based hample halloc
    have hwithin := hsound.within b List.mem_cons_self
    have hsize := size_of_allocate halloc
    refine ⟨hcached.choice_of_allocate hample halloc, hwithin.offset_eq, hsize, ?_,
      p.contents m' b, ?_, ?_⟩
    · rw [← hsize]
      exact hwithin.size_le
    · rw [hagree]
      exact (hsound.reattach q.attachment).read_eq List.mem_cons_self
    · rw [length_contents, hsize]

/-- A pool of 256 bytes is cut into one block of 128 bytes and two of 64, and the first is given
back. -/
def filling : List Event :=
  [.act 0 (.allocate 100), .act 0 (.allocate 1), .act 0 (.allocate 1),
    .act 0 (.deallocate ⟨16, 100⟩)]

/-- When a pool is full, a small request is served by the larger block that was freed, and a request
that is too large for that block is refused. -/
theorem allocate_of_run_full : ∃ p d', create "blocks" 256 Directory.empty = (.ok p, d') ∧
    let u := (fresh p d').run filling
    Recalls p (fresh p d') u [0] ∧ Choice p u.memory [0] (needed 1) 0 ∧
      (p.allocate 1 u.memory).1 = .ok ⟨16, 1⟩ ∧
      (∃ fault, (p.allocate 200 u.memory).1 = .error fault) := by
  let p : Pool := ⟨⟨0, "blocks", 1024, true⟩, 256, 768⟩
  let d' := (create "blocks" 256 Directory.empty).2
  have hcreate : create "blocks" 256 Directory.empty = (.ok p, d') := rfl
  refine ⟨p, d', hcreate, ?_⟩
  intro u
  obtain ⟨-, hrecalls⟩ := recalls_freed (p := p) (u := fresh p d') filling
  have hfreed : ((fresh p d').freed filling).2 = [0] := by decide +kernel
  rw [hfreed] at hrecalls
  have hq : p ∈ u.handles := mem_handles_run (List.mem_singleton_self p) filling
  have hserved : (p.allocate 1 u.memory).1.toOption = some ⟨16, 1⟩ := by decide +kernel
  have hfirst : (p.allocate 1 u.memory).1 = .ok ⟨16, 1⟩ := by
    cases hanswer : (p.allocate 1 u.memory).1 with
    | error fault =>
      rw [hanswer] at hserved
      cases hserved
    | ok b =>
      rw [hanswer] at hserved
      rw [Option.some.inj hserved]
  have hpair : p.allocate 1 u.memory = (.ok ⟨16, 1⟩, (p.allocate 1 u.memory).2) := by
    rw [← hfirst]
  have hfull : p.extent u.memory 0 = 128 ∧ (u.memory.load64 bumpAt).toNat = 256 := by
    decide +kernel
  have hneeded : needed 200 = 256 := by decide +kernel
  obtain ⟨-, hsmall⟩ := allocate_of_run hcreate hrecalls.run hq 1
  obtain ⟨-, hlarge⟩ := allocate_of_run hcreate hrecalls.run hq 200
  refine ⟨hrecalls, ?_, hfirst, (hlarge [0] hrecalls).1.2 (.inr (.inr ?_))⟩
  · exact ((hsmall [0] hrecalls).2.2 ⟨16, 1⟩ _ hpair).1
  · rw [List.forall_mem_singleton, hfull.1, hfull.2, hneeded]
    exact ⟨by decide, by decide⟩

end Usage

end SharedExchange.Pool
