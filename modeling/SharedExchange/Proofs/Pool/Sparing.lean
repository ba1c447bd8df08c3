import Mathlib.Tactic
import SharedExchange.Proofs.Pool.History

/-! # Blocks that are left alone

Whoever holds a reference relies on its block being left alone while others use the pool.
`Usage.Next` is what may happen to a pool in use when the actions keep to a rule, and two rules
matter: an action spares a reference when it neither writes through it nor gives its block back
(`Action.Spares`), and it is quiet when it hands out no block and takes none back (`Action.Quiet`).
While a reference is spared, its block is found and read as before (`Usage.Spared`); while all is
quiet, the chains of freed blocks keep their links (`SameLinks`). -/

namespace SharedExchange.Pool

variable {p q : Pool} {m m' : Memory} {live : List BlockRef} {blocks : List UInt64}
  {stack : Nat → List UInt64} {b : BlockRef}

namespace Action

/-- The action neither writes through a reference nor gives its block back. -/
def Spares (b : BlockRef) : Action → Prop
  | allocate _ => True
  | allocateWith _ _ => True
  | write a _ => a ≠ b
  | edit a _ => a ≠ b
  | deallocate a => a ≠ b

/-- The action neither hands out a block nor takes one back. -/
def Quiet : Action → Prop
  | allocate _ => False
  | allocateWith _ _ => False
  | write _ _ => True
  | edit _ _ => True
  | deallocate _ => False

end Action

/-! ## One action -/

/-- Whoever spares a reference acts as if he did not know of it. -/
theorem perform_erase (p : Pool) (m : Memory) (hb : b ∈ live) {action : Action}
    (hspares : action.Spares b) :
    (p.perform m live action).1 = (p.perform m (live.erase b) action).1 ∧
      (p.perform m live action).2.Perm (b :: (p.perform m (live.erase b) action).2) := by
  have hperm := List.perm_cons_erase hb
  cases action with
  | allocate n =>
    rw [perform, perform]
    cases halloc : p.allocate n m with
    | mk answer m₁ =>
      cases answer with
      | error fault => exact ⟨rfl, hperm⟩
      | ok a => exact ⟨rfl, (hperm.cons a).trans (List.Perm.swap ..)⟩
  | allocateWith bytes short =>
    rw [perform, perform]
    cases halloc : p.allocateWith bytes m with
    | mk answer m₁ =>
      cases answer with
      | error fault => exact ⟨rfl, hperm⟩
      | ok a => exact ⟨rfl, (hperm.cons a).trans (List.Perm.swap ..)⟩
  | write a bytes =>
    have hmem : a ∈ live.erase b ↔ a ∈ live := List.mem_erase_of_ne hspares
    simp only [perform, hmem]
    split <;> exact ⟨rfl, hperm⟩
  | edit a f =>
    have hmem : a ∈ live.erase b ↔ a ∈ live := List.mem_erase_of_ne hspares
    simp only [perform, hmem]
    split <;> exact ⟨rfl, hperm⟩
  | deallocate a =>
    have hmem : a ∈ live.erase b ↔ a ∈ live := List.mem_erase_of_ne hspares
    -- another block is given back, so this one stays
    have hleft : (live.erase a).Perm (b :: (live.erase b).erase a) := by
      rw [List.erase_comm b a]
      exact List.perm_cons_erase ((List.mem_erase_of_ne hspares.symm).2 hb)
    simp only [perform, hmem]
    split
    · split
      · exact ⟨rfl, hleft⟩
      · exact ⟨rfl, hperm⟩
    · exact ⟨rfl, hperm⟩

/-- What is asked through other references leaves a block in use with what it holds. -/
theorem Sound.spares (hp : Based p) (h : Sound p m live) (hample : Ample m) (hb : b ∈ live)
    {action : Action} (hspares : action.Spares b) :
    b ∈ (p.perform m live action).2 ∧
      p.contents (p.perform m live action).1 b = p.contents m b ∧
      p.blockSize b.start (p.perform m live action).1 = p.blockSize b.start m := by
  obtain ⟨hmemory, hperm⟩ := p.perform_erase m hb hspares
  have hparted : Sound p m ([b] ++ live.erase b) := h.perm (List.perm_cons_erase hb)
  obtain ⟨blocks, stack, hdiv, hwithin⟩ := h
  have hadvances := hdiv.advances_perform hp hwithin hample action
  refine ⟨hperm.mem_iff.2 List.mem_cons_self, ?_, ?_⟩
  · rw [hmemory]
    exact hparted.contents_perform hp hample action (List.mem_singleton_self b)
  · exact hadvances.sizes _ (hdiv.mem_of_taken (List.mem_map_of_mem hb))

/-- The tops of the chains and the links of the blocks are the same. -/
structure SameLinks (p : Pool) (m m' : Memory) (blocks : List UInt64) : Prop where
  heads : ∀ c < classCount, m'.load64 (headAt c) = m.load64 (headAt c)
  links : ∀ a ∈ blocks, m'.load64 (p.linkAt a) = m.load64 (p.linkAt a)

/-- Links that do not change are the same. -/
theorem SameLinks.refl (p : Pool) (m : Memory) (blocks : List UInt64) : SameLinks p m m blocks :=
  ⟨fun _ _ => rfl, fun _ _ => rfl⟩

/-- Links that stay the same twice are the same. -/
theorem SameLinks.trans {m'' : Memory} (h : SameLinks p m m' blocks)
    (h' : SameLinks p m' m'' blocks) : SameLinks p m m'' blocks :=
  ⟨fun c hc => (h'.heads c hc).trans (h.heads c hc),
    fun a ha => (h'.links a ha).trans (h.links a ha)⟩

/-- Writing the bytes of a block in use keeps the division and its links. -/
theorem Divided.sameLinks_store (hp : Based p)
    (h : Divided p m (live.map BlockRef.start) blocks stack) (hb : b ∈ live)
    (hwithin : b.Within p m) {bytes : List UInt8} (hlength : bytes.length ≤ b.size.toNat) :
    Divided p (m.store (p.bytesAt b) bytes) (live.map BlockRef.start) blocks stack ∧
      SameLinks p m (m.store (p.bytesAt b) bytes) blocks := by
  have htaken := List.mem_map_of_mem (f := BlockRef.start) hb
  have hfits := hwithin.size_le
  have hplace := bytesAt_eq hwithin
  have hlow : p.blockAt b.start + blockHeader ≤ p.bytesAt b := hplace.ge
  have hhigh : p.bytesAt b + bytes.length ≤ p.blockAt b.start + p.extent m b.start := by omega
  refine ⟨h.store_inside hp htaken hlow hhigh, fun c hc => ?_, fun a ha => ?_⟩
  · exact load64_store_bytes hp hwithin bytes (headAt_le hc)
  · refine h.load64_store_inside htaken hlow hhigh ha ?_ ?_
    · rw [linkAt]
      omega
    · rw [linkAt, blockHeader]

/-- A quiet action keeps the references, the division and its links. -/
theorem Divided.quiet (hp : Based p) (h : Divided p m (live.map BlockRef.start) blocks stack)
    (hwithin : ∀ b ∈ live, b.Within p m) {action : Action} (hquiet : action.Quiet) :
    (p.perform m live action).2 = live ∧
      Divided p (p.perform m live action).1 (live.map BlockRef.start) blocks stack ∧
      SameLinks p m (p.perform m live action).1 blocks := by
  have hsame := SameLinks.refl p m blocks
  cases action with
  | allocate n => cases hquiet
  | allocateWith bytes short => cases hquiet
  | write b bytes =>
    rw [perform]
    split
    · next hb =>
      obtain ⟨stored, hlength, heq⟩ := write_eq_store p b bytes m
      rw [heq]
      exact ⟨rfl, h.sameLinks_store hp hb (hwithin b hb) hlength⟩
    · exact ⟨rfl, h, hsame⟩
  | edit b f =>
    rw [perform]
    split
    · next hb =>
      obtain ⟨stored, hlength, heq⟩ := edit_eq_store p b (fun bytes => (.ok (), f bytes)) m
      rw [heq]
      exact ⟨rfl, h.sameLinks_store hp hb (hwithin b hb) hlength⟩
    · exact ⟨rfl, h, hsame⟩
  | deallocate b => cases hquiet

/-! ## What may happen to a pool -/

/-- An event keeps to a rule when the action in it does. -/
def Event.Keeps (rule : Action → Prop) : Event → Prop
  | attach _ => True
  | act _ action => rule action

namespace Usage

variable {u u' : Usage} {rule : Action → Prop} {events : List Event}

/-- One thing that happens to a pool in use, when all actions on it keep to a rule. Reading blocks
and counters is not among them, as it changes nothing. -/
inductive Next (p : Pool) (rule : Action → Prop) : Usage → Usage → Prop
  /-- Something happens elsewhere in the directory. -/
  | elsewhere {u : Usage} (d : Directory) (hmemory : d.memory u.object = u.memory) :
    Next p rule u { u with directory := d }
  /-- Somebody opens the pool. -/
  | attach {u : Usage} (name : String) : Next p rule u (u.step (.attach name))
  /-- Somebody uses the handle he has. -/
  | act {u : Usage} (handle : Nat) {action : Action} (hrule : rule action) :
    Next p rule u (u.step (.act handle action))
  /-- Somebody lets go of the pool. -/
  | drop {u : Usage} {front back : List Pool} {q : Pool} (h : u.handles = front ++ q :: back) :
    Next p rule u
      { u with directory := u.directory.release q.attachment, handles := front ++ back }

/-- Events that keep to a rule happen one after the other. -/
theorem reflTransGen_run (h : ∀ event ∈ events, event.Keeps rule) :
    Relation.ReflTransGen (Next p rule) u (u.run events) := by
  induction events generalizing u with
  | nil => exact .refl
  | cons event events ih =>
    have hstep : Next p rule u (u.step event) := by
      cases event with
      | attach name => exact .attach name
      | act handle action => exact .act handle (h _ List.mem_cons_self)
    exact .head hstep (ih fun e he => h e (List.mem_cons_of_mem _ he))

/-- What holds of a pool in use: it is a proper one, with all that its makers rely on. -/
structure Tended (p : Pool) (u : Usage) : Prop extends Kept p u where
  proper : Proper p

/-- The data area starts behind the header. -/
theorem Tended.based (h : Tended p u) : Based p := h.proper.toBased

/-- No block that is cut ends beyond a word. -/
theorem Tended.ample (h : Tended p u) : Ample u.memory := h.sound.ample h.proper

/-- Whatever happens, the object and the references in use stay, or an action is performed on
them. -/
theorem Tended.next_cases (h : Tended p u) (hnext : Next p rule u u') :
    (u'.memory = u.memory ∧ u'.live = u.live) ∨
      ∃ action, rule action ∧ u'.memory = (p.perform u.memory u.live action).1 ∧
        u'.live = (p.perform u.memory u.live action).2 := by
  cases hnext with
  | elsewhere d hmemory => exact .inl ⟨hmemory, rfl⟩
  | attach name =>
    obtain hsame | ⟨handle, action, hevent, -⟩ := step_cases h.agree (.attach name)
    · exact .inl hsame
    · cases hevent
  | @act handle action hrule =>
    obtain hsame | ⟨_, _, hevent, hmemory, hlive⟩ := step_cases h.agree (.act handle action)
    · exact .inl hsame
    · cases hevent
      exact .inr ⟨action, hrule, hmemory, hlive⟩
  | drop hhandles => exact .inl ⟨Directory.memory_release .., rfl⟩

/-- Every step keeps the pool sound and lets the handles agree. -/
theorem Tended.next (h : Tended p u) (hnext : Next p rule u u') : Tended p u' := by
  refine ⟨⟨?_, ?_, ?_⟩, h.proper⟩
  · obtain ⟨hmemory, hlive⟩ | ⟨action, -, hmemory, hlive⟩ := h.next_cases hnext
    · rw [hmemory, hlive]
      exact h.sound
    · rw [hmemory, hlive]
      exact h.sound.perform h.based h.ample action
  · obtain ⟨hmemory, -⟩ | ⟨action, -, hmemory, -⟩ := h.next_cases hnext
    · rw [hmemory]
      exact h.inside
    · rw [hmemory, size_perform]
      exact h.inside
  · cases hnext with
    | elsewhere d hmemory => exact h.agree
    | attach name => exact agree_step h.sound h.agree _
    | act handle hrule => exact agree_step h.sound h.agree _
    | @drop front back q hhandles =>
      intro a ha
      refine h.agree a ?_
      rw [hhandles]
      exact ((List.sublist_cons_self q back).append_left front).subset ha

/-- A whole run keeps the pool sound and lets the handles agree. -/
theorem Tended.run (h : Tended p u) (hrun : Relation.ReflTransGen (Next p rule) u u') :
    Tended p u' := by
  induction hrun with
  | refl => exact h
  | tail _ hnext ih => exact ih.next hnext

/-! ## Sparing a reference -/

/-- A reference that was in use is still so: its block is read through every handle with the bytes
it had, and the size in front of it is the same. -/
structure Spared (p : Pool) (b : BlockRef) (u u' : Usage) : Prop where
  live : b ∈ u'.live
  contents_eq : p.contents u'.memory b = p.contents u.memory b
  blockSize_eq : p.blockSize b.start u'.memory = p.blockSize b.start u.memory
  read_eq : ∀ q ∈ u'.handles, q.read b u'.memory = .ok (p.contents u.memory b)

/-- A reference in use is served by every handle. -/
theorem Tended.read_eq (h : Tended p u) (hb : b ∈ u.live) (hq : q ∈ u.handles) :
    q.read b u.memory = .ok (p.contents u.memory b) := by
  rw [h.agree q hq]
  exact (h.sound.reattach q.attachment).read_eq hb

/-- While a reference is spared, its block is left alone. -/
theorem Tended.spared (h : Tended p u) (hb : b ∈ u.live)
    (hrun : Relation.ReflTransGen (Next p (Action.Spares b)) u u') : Spared p b u u' := by
  have hsame : b ∈ u'.live ∧ p.contents u'.memory b = p.contents u.memory b ∧
      p.blockSize b.start u'.memory = p.blockSize b.start u.memory := by
    induction hrun with
    | refl => exact ⟨hb, rfl, rfl⟩
    | @tail w w' hbefore hnext ih =>
      obtain ⟨hlive, hcontents, hsize⟩ := ih
      have hbefore := h.run hbefore
      obtain ⟨hmemory, hsame⟩ | ⟨action, hspares, hmemory, hnew⟩ := hbefore.next_cases hnext
      · rw [hmemory, hsame]
        exact ⟨hlive, hcontents, hsize⟩
      · rw [hmemory, hnew, ← hcontents, ← hsize]
        exact hbefore.sound.spares hbefore.based hbefore.ample hlive hspares
  obtain ⟨hlive, hcontents, hsize⟩ := hsame
  refine ⟨hlive, hcontents, hsize, fun q hq => ?_⟩
  rw [(h.run hrun).read_eq hlive hq, hcontents]

/-- While all is quiet, no link changes. -/
theorem Tended.sameLinks (h : Tended p u)
    (hdiv : Divided p u.memory (u.live.map BlockRef.start) blocks stack)
    (hrun : Relation.ReflTransGen (Next p Action.Quiet) u u') :
    SameLinks p u.memory u'.memory blocks := by
  -- the division goes along, as it says where the links are
  have hsame : Divided p u'.memory (u'.live.map BlockRef.start) blocks stack ∧
      SameLinks p u.memory u'.memory blocks := by
    induction hrun with
    | refl => exact ⟨hdiv, .refl ..⟩
    | @tail w w' hbefore hnext ih =>
      obtain ⟨hdiv', hlinks⟩ := ih
      obtain ⟨hmemory, hlive⟩ | ⟨action, hquiet, hmemory, hlive⟩ :=
        (h.run hbefore).next_cases hnext
      · rw [hmemory, hlive]
        exact ⟨hdiv', hlinks⟩
      · have hwithin := (h.run hbefore).sound.within
        obtain ⟨hstay, hdiv'', hlinks'⟩ := hdiv'.quiet h.based hwithin hquiet
        rw [hmemory, hlive, hstay]
        exact ⟨hdiv'', hlinks.trans hlinks'⟩
  exact hsame.2

/-! ## The pool as a whole -/

/-- A pool that was just made is tended. -/
theorem tended_fresh {name : String} {size : UInt64} {d d' : Directory}
    (h : create name size d = (.ok p, d')) : Tended p (fresh p d') :=
  ⟨(kept_fresh h).2, (kept_fresh h).1⟩

/-- However a pool has been used until now: every block in use is left alone for as long as its
reference is spared, and the chains of freed blocks keep their links for as long as no block is
handed out or given back. -/
theorem spared_of_run {name : String} {size : UInt64} {d d' : Directory}
    (h : create name size d = (.ok p, d'))
    (hrun : Relation.ReflTransGen (Next p fun _ => True) (fresh p d') u) :
    (∀ b ∈ u.live, ∀ u', Relation.ReflTransGen (Next p (Action.Spares b)) u u' →
      Spared p b u u') ∧
    ∃ blocks stack, Divided p u.memory (u.live.map BlockRef.start) blocks stack ∧
      ∀ u', Relation.ReflTransGen (Next p Action.Quiet) u u' →
        SameLinks p u.memory u'.memory blocks := by
  have htended := (tended_fresh h).run hrun
  obtain ⟨blocks, stack, hdiv, -⟩ := htended.sound
  exact ⟨fun b hb u' hrun' => htended.spared hb hrun',
    blocks, stack, hdiv, fun u' hrun' => htended.sameLinks hdiv hrun'⟩

/-- Two blocks are handed out and the first is written. -/
def writing : List Event :=
  [.act 0 (.allocate 1), .act 0 (.allocate 1), .act 0 (.write ⟨16, 1⟩ [7])]

/-- Somebody else opens the pool, gives back the second block, takes it again and writes it. -/
def sparing : List Event :=
  [.attach "blocks", .act 0 (.deallocate ⟨80, 1⟩), .act 0 (.allocate 1),
    .act 0 (.write ⟨80, 1⟩ [9])]

/-- While the second block is given back, handed out again and written, both handles read the first
one as it was. -/
theorem spared_of_run_reused : ∃ p d', create "blocks" 256 Directory.empty = (.ok p, d') ∧
    let u := (fresh p d').run writing
    let u' := u.run sparing
    u.live = [⟨80, 1⟩, ⟨16, 1⟩] ∧ u'.handles.length = 2 ∧ Spared p ⟨16, 1⟩ u u' ∧
      p.contents u.memory ⟨16, 1⟩ = [7] ∧ p.contents u'.memory ⟨80, 1⟩ = [9] := by
  let p : Pool := ⟨⟨0, "blocks", 1024, true⟩, 256, 768⟩
  let d' := (create "blocks" 256 Directory.empty).2
  have hcreate : create "blocks" 256 Directory.empty = (.ok p, d') := rfl
  refine ⟨p, d', hcreate, ?_⟩
  intro u u'
  have hevents : u.live = [⟨80, 1⟩, ⟨16, 1⟩] ∧ u'.handles.length = 2 ∧
      p.contents u.memory ⟨16, 1⟩ = [7] ∧ p.contents u'.memory ⟨80, 1⟩ = [9] := by
    decide +kernel
  obtain ⟨hlive, hhandles, hfirst, hsecond⟩ := hevents
  have hrun : Relation.ReflTransGen (Next p fun _ => True) (fresh p d') u := by
    refine reflTransGen_run fun event _ => ?_
    cases event <;> trivial
  have hspares : Relation.ReflTransGen (Next p (Action.Spares ⟨16, 1⟩)) u u' := by
    refine reflTransGen_run fun event hevent => ?_
    simp only [sparing, List.mem_cons, List.not_mem_nil, or_false] at hevent
    rcases hevent with rfl | rfl | rfl | rfl
    · trivial
    · exact (by decide : (⟨80, 1⟩ : BlockRef) ≠ ⟨16, 1⟩)
    · trivial
    · exact (by decide : (⟨80, 1⟩ : BlockRef) ≠ ⟨16, 1⟩)
  have hspared := (spared_of_run hcreate hrun).1 ⟨16, 1⟩ (by rw [hlive]; decide) u' hspares
  exact ⟨hlive, hhandles, hspared, hfirst, hsecond⟩

end Usage

end SharedExchange.Pool
