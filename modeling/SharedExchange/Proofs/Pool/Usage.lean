import Mathlib.Tactic
import SharedExchange.Proofs.Making
import SharedExchange.Proofs.Pool.Allocation

/-! # A pool in use

A `Usage` is a pool with everybody who uses it: the directory, the handles on the pool's object, and
the references that were handed out and not yet given back. `Usage.run` performs a list of actions
in their order, each through any of the handles.

The users keep one rule: a block is written, changed or given back only by a reference that is
still out, so that none is given back twice. Whatever is asked under this rule comes to one of five
things (`Performed`), and later modules look at these and not at the actions. -/

namespace SharedExchange.Pool

/-! ## A fresh pool -/

/-- The chains of a fresh pool are marked empty, and nothing but their tops is written for that. -/
theorem load64_emptied_heads (n : Nat) (m : Memory) {position : Nat}
    (h : position + 8 ≤ headAt 0 ∨ headAt n ≤ position) :
    ((List.range n).foldl (fun m c => m.store64 (headAt c) nil) m).load64 position =
      m.load64 position := by
  induction n with
  | zero => rfl
  | succ n ih =>
    have hfar : position + 8 ≤ headAt n ∨ headAt n + 8 ≤ position := by
      simp only [headAt] at h ⊢
      omega
    have hrest : position + 8 ≤ headAt 0 ∨ headAt n ≤ position := by
      simp only [headAt] at h ⊢
      omega
    rw [List.range_succ, List.foldl_append]
    simp only [List.foldl_cons, List.foldl_nil]
    rw [Memory.load64_store64_of_disjoint _ _ hfar, ih hrest]

/-- The heads that were emptied so far are nil. -/
theorem load64_emptied_head {n c : Nat} (hc : c < n) (m : Memory) :
    ((List.range n).foldl (fun m c => m.store64 (headAt c) nil) m).load64 (headAt c) = nil := by
  induction n with
  | zero => omega
  | succ n ih =>
    rw [List.range_succ, List.foldl_append]
    simp only [List.foldl_cons, List.foldl_nil]
    by_cases hcn : c = n
    · rw [hcn, Memory.load64_store64_same]
    · rw [Memory.load64_store64_of_disjoint _ _ (by rw [headAt, headAt]; omega),
        ih (by omega)]

/-- The header of a fresh pool has its size. -/
theorem load64_format_size (size : UInt64) (m : Memory) :
    (format size m).load64 sizeAt = size := by
  rw [format, load64_emptied_heads _ _ (.inl (by decide)),
    Memory.load64_store64_of_disjoint _ _ (.inl (by decide)), Memory.load64_store64_same]

/-- The header of a fresh pool has the place of its blocks. -/
theorem load64_format_dataStart (size : UInt64) (m : Memory) :
    (format size m).load64 dataStartAt = UInt64.ofNat signature.headerSize := by
  rw [format, load64_emptied_heads _ _ (.inl (by decide)), Memory.load64_store64_same]

/-- All heads of a fresh pool are nil. -/
theorem load64_format_head {c : Nat} (hc : c < classCount) (size : UInt64) (m : Memory) :
    (format size m).load64 (headAt c) = nil := by
  rw [format]
  exact load64_emptied_head hc _

/-- The cursor and the counters of a fresh pool are left as they were found. -/
theorem load64_format (size : UInt64) (m : Memory) {position : Nat}
    (hlow : dataStartAt + 8 ≤ position) (hhigh : position + 8 ≤ headAt 0) :
    (format size m).load64 position = m.load64 position := by
  simp only [dataStartAt] at hlow
  rw [format, load64_emptied_heads _ _ (.inl hhigh),
    Memory.load64_store64_of_disjoint _ _ (.inr (by rw [dataStartAt]; omega)),
    Memory.load64_store64_of_disjoint _ _ (.inr (by rw [sizeAt]; omega)), Signature.write,
    Memory.load64_store32_of_disjoint _ _ (.inr (by omega)),
    Memory.load64_store32_of_disjoint _ _ (.inr (by omega))]

/-- The header of a fresh pool is written inside the object. -/
@[simp] theorem size_format (size : UInt64) (m : Memory) : (format size m).size = m.size := by
  have hemptied : ∀ n (m : Memory),
      ((List.range n).foldl (fun m c => m.store64 (headAt c) nil) m).size = m.size := by
    intro n m
    induction n with
    | zero => rfl
    | succ n ih =>
      rw [List.range_succ, List.foldl_append]
      simp only [List.foldl_cons, List.foldl_nil, Memory.size_store64, ih]
  rw [format, hemptied, Memory.size_store64, Memory.size_store64, Signature.write,
    Memory.size_store32, Memory.size_store32]

/-- A fresh pool has no blocks. -/
theorem sound_format {p : Pool} {m : Memory}
    (hdata : p.dataStart = UInt64.ofNat signature.headerSize) (hm : m.load64 bumpAt = 0) :
    Sound p (format p.size m) [] := by
  refine ⟨[], fun _ => [], ?_, fun b hb => by cases hb⟩
  have hbump : ((format p.size m).load64 bumpAt).toNat = 0 := by
    rw [load64_format _ _ (by decide) (by decide), hm]
    rfl
  exact {
    size_eq := load64_format_size ..
    dataStart_eq := by rw [load64_format_dataStart, hdata]
    tiles := hbump.symm
    bump_le := by
      rw [hbump]
      exact Nat.zero_le _
    linked := fun c hc => load64_format_head hc ..
    classed := fun c hc b hb => by cases hb
    places := by simp }

/-- What a pool is that was made, and what is in its object. -/
theorem eq_of_create {name : String} {size : UInt64} {d d' : Directory} {p : Pool}
    (h : create name size d = (.ok p, d')) :
    Granular size ∧ wholeSize size ≤ Directory.mappingLimit ∧
      p = ⟨⟨d.nextObject, name, wholeSize size, true⟩, size, UInt64.ofNat signature.headerSize⟩ ∧
      d'.memory p.attachment.object = format size (Memory.zeros (wholeSize size)) := by
  obtain ⟨hsize, hgrants, rfl, rfl⟩ := create_eq_ok_iff.1 h
  exact ⟨hsize, hgrants.size_le, rfl, Directory.memory_establish ..⟩

/-- The cursor and the counters of a made pool are zero. -/
theorem load64_of_create {name : String} {size : UInt64} {d d' : Directory} {p : Pool}
    (h : create name size d = (.ok p, d')) {position : Nat} (hlow : dataStartAt + 8 ≤ position)
    (hhigh : position + 8 ≤ headAt 0) :
    (d'.memory p.attachment.object).load64 position = 0 := by
  obtain ⟨-, -, -, hmemory⟩ := eq_of_create h
  rw [hmemory, load64_format _ _ hlow hhigh, Memory.load64_zeros]

/-- Making a pool leaves all older objects as they are. -/
theorem memory_of_create {name : String} {size : UInt64} {d d' : Directory} {p : Pool}
    (h : create name size d = (.ok p, d')) {id : ObjectId} (hid : id ≠ d.nextObject) :
    d'.memory id = d.memory id := by
  obtain ⟨-, -, -, rfl⟩ := create_eq_ok_iff.1 h
  exact Directory.memory_establish_of_ne _ _ _ _ hid

/-- A handle on an existing pool takes its measures from the header, and finding it changes
nothing. -/
theorem eq_of_attach {name : String} {d d' : Directory} {p : Pool}
    (h : attach name d = (.ok p, d')) :
    p.size = (d.memory p.attachment.object).load64 sizeAt ∧
      p.dataStart = (d.memory p.attachment.object).load64 dataStartAt ∧ d' = d := by
  obtain ⟨⟨a, -, rfl⟩, hd⟩ := attach_eq_ok_iff.1 h
  exact ⟨rfl, rfl, hd⟩

/-- Whoever looks for a pool changes nothing. -/
theorem attach_snd (name : String) (d : Directory) : (attach name d).2 = d := d.examine_snd ..

/-! ## What is asked of a pool -/

/-- What can be asked through a handle. -/
inductive Action
  | allocate (n : UInt64)
  | allocateWith (bytes : List UInt8) (short : bytes.length < UInt64.size)
  | write (b : BlockRef) (bytes : List UInt8)
  | edit (b : BlockRef) (f : List UInt8 → List UInt8)
  | deallocate (b : BlockRef)

/-- A block that was handed out is added to the live ones. -/
def receive (live : List BlockRef) : Except Fault BlockRef × Memory → Memory × List BlockRef
  | (.ok b, m) => (m, b :: live)
  | (.error _, m) => (m, live)

/-- The memory and the live references after an action. References that are not live are not
used. -/
def perform (p : Pool) (m : Memory) (live : List BlockRef) : Action → Memory × List BlockRef
  | .allocate n => receive live (p.allocate n m)
  | .allocateWith bytes _ => receive live (p.allocateWith bytes m)
  | .write b bytes => if b ∈ live then ((p.write b bytes m).2, live) else (m, live)
  | .edit b f =>
    if b ∈ live then ((p.edit b (fun bytes => (.ok (), f bytes)) m).2, live) else (m, live)
  | .deallocate b =>
    if b ∈ live then
      match p.deallocate b m with
      | (.ok (), m) => (m, live.erase b)
      | (.error _, m) => (m, live)
    else (m, live)

section

variable {p : Pool} {m m' : Memory} {live : List BlockRef} {b : BlockRef} {n : UInt64}

/-- A block that was just handed out for some bytes has room for them, so they are written. -/
theorem Sound.allocateWith_eq (hp : Based p) (h : Sound p m live) (hample : Ample m)
    {bytes : List UInt8} (hshort : bytes.length < UInt64.size)
    (halloc : p.allocate (UInt64.ofNat bytes.length) m = (.ok b, m')) :
    b.size.toNat = bytes.length ∧
      p.allocateWith bytes m = (.ok b, m'.store (p.bytesAt b) bytes) := by
  have hlocate := (h.allocate hp hample halloc).locate List.mem_cons_self
  have hsize : b.size.toNat = bytes.length := by
    obtain ⟨blocks, stack, hdiv, -⟩ := h
    rw [(hdiv.given_of_allocate hp hample halloc).1, UInt64.toNat_ofNat']
    exact Nat.mod_eq_of_lt hshort
  refine ⟨hsize, ?_⟩
  rw [Pool.allocateWith, halloc]
  simp only [write, hlocate, hsize, lt_irrefl, if_false]

/-- What an action comes to: nothing; bytes written into a block in use; a block handed out, empty
or with bytes written into it at once; or a block given back. -/
inductive Performed (p : Pool) (m : Memory) (live : List BlockRef) : Memory × List BlockRef → Prop
  | nothing : Performed p m live (m, live)
  | stored {b : BlockRef} {bytes : List UInt8} (hb : b ∈ live)
    (hlength : bytes.length ≤ b.size.toNat) :
    Performed p m live (m.store (p.bytesAt b) bytes, live)
  | handedOut {n : UInt64} {b : BlockRef} {m' : Memory}
    (halloc : p.allocate n m = (.ok b, m')) : Performed p m live (m', b :: live)
  | handedOutWith {n : UInt64} {b : BlockRef} {m' : Memory} {bytes : List UInt8}
    (halloc : p.allocate n m = (.ok b, m')) (hlength : bytes.length ≤ b.size.toNat) :
    Performed p m live (m'.store (p.bytesAt b) bytes, b :: live)
  | takenBack {b : BlockRef} {c : Nat} (hb : b ∈ live) (hc : c < classCount)
    (hsize : p.blockSize b.start m = classSize c) :
    Performed p m live (p.freedMemory c b.start m, live.erase b)

/-- Whatever a party asks that uses some of the blocks, it comes to one of these. -/
theorem Sound.performed {held : List BlockRef} (hp : Based p) (h : Sound p m live)
    (hample : Ample m) (hheld : held ⊆ live) (action : Action) :
    Performed p m held (p.perform m held action) := by
  cases action with
  | allocate n =>
    rw [perform]
    cases halloc : p.allocate n m with
    | mk answer m₁ =>
      cases answer with
      | error fault =>
        obtain rfl := allocate_error halloc
        exact .nothing
      | ok b => exact .handedOut halloc
  | allocateWith bytes short =>
    rw [perform]
    cases halloc : p.allocate (UInt64.ofNat bytes.length) m with
    | mk answer m₁ =>
      cases answer with
      | error fault =>
        obtain rfl := allocate_error halloc
        rw [Pool.allocateWith, halloc]
        exact .nothing
      | ok b =>
        obtain ⟨hsize, heq⟩ := h.allocateWith_eq hp hample short halloc
        rw [heq]
        exact .handedOutWith halloc hsize.ge
  | write b bytes =>
    rw [perform]
    split
    · next hb =>
      obtain ⟨stored, hlength, heq⟩ := write_eq_store p b bytes m
      rw [heq]
      exact .stored hb hlength
    · exact .nothing
  | edit b f =>
    rw [perform]
    split
    · next hb =>
      obtain ⟨stored, hlength, heq⟩ := edit_eq_store p b (fun bytes => (.ok (), f bytes)) m
      rw [heq]
      exact .stored hb hlength
    · exact .nothing
  | deallocate b =>
    rw [perform]
    split
    · next hb =>
      -- only blocks in use are given back, so the refusals of a pool do not come up
      obtain ⟨c, hc, hsize, hfree⟩ := h.deallocate_eq (hheld hb)
      rw [hfree]
      exact .takenBack hb hc hsize
    · exact .nothing

/-- Whatever is asked keeps a pool sound. -/
theorem Sound.perform (hp : Based p) (h : Sound p m live) (hample : Ample m) (action : Action) :
    Sound p (p.perform m live action).1 (p.perform m live action).2 := by
  have hdone := h.performed hp hample (List.Subset.refl live) action
  generalize p.perform m live action = after at hdone ⊢
  cases hdone with
  | nothing => exact h
  | stored hb hlength => exact h.store hp hb hlength
  | handedOut halloc => exact h.allocate hp hample halloc
  | handedOutWith halloc hlength =>
    exact (h.allocate hp hample halloc).store hp List.mem_cons_self hlength
  | takenBack hb hc hsize => exact h.freed hp hb hc hsize

/-- Allocating does not depend on the hold. -/
theorem allocate_reattach (p : Pool) (attachment : Attachment) (n : UInt64) (m : Memory) :
    ({ p with attachment := attachment } : Pool).allocate n m = p.allocate n m := by
  have hplace : ∀ c, ({ p with attachment := attachment } : Pool).place? c m = p.place? c m := by
    intro c
    have hpop : ({ p with attachment := attachment } : Pool).pop? c m = p.pop? c m := rfl
    have hcut : ({ p with attachment := attachment } : Pool).cut? c m = p.cut? c m := rfl
    have hlarger : ({ p with attachment := attachment } : Pool).popLarger? c m =
      p.popLarger? c m := rfl
    rw [place?, hpop, hcut, hlarger, place?]
  have hclass : ({ p with attachment := attachment } : Pool).requestClass? n = p.requestClass? n :=
    rfl
  simp only [allocate, hclass, hplace]
  rfl

/-- An action is the same through all handles on a pool. -/
theorem perform_reattach (p : Pool) (attachment : Attachment) (m : Memory) (live : List BlockRef)
    (action : Action) :
    ({ p with attachment := attachment } : Pool).perform m live action =
      p.perform m live action := by
  cases action with
  | allocate n => rw [perform, allocate_reattach, perform]
  | allocateWith bytes short =>
    rw [perform, allocateWith, allocate_reattach, perform, allocateWith]
    rfl
  | write b bytes => rfl
  | edit b f => rfl
  | deallocate b => rfl

end

/-! ## The object keeps its size -/

section

variable (p : Pool) (m : Memory)

/-- Popping a block keeps the size of the object. -/
theorem size_of_pop {c : Nat} {found : UInt64 × Memory} (h : p.pop? c m = some found) :
    found.2.size = m.size := by
  rw [pop?] at h
  split at h
  · cases h
  · rw [← Option.some.inj h, Memory.size_store64]

/-- Finding a place for a block keeps the size of the object. -/
theorem size_of_place {c : Nat} {found : UInt64 × Memory} (hc : c < classCount)
    (h : p.place? c m = some found) : found.2.size = m.size := by
  obtain hcut | ⟨d, -, -, popped, hpop, rfl⟩ := place?_eq_some hc h
  · rw [cut?_eq] at hcut
    split at hcut
    · cases hcut
    · rw [← Option.some.inj hcut]
      simp only [cutMemory, Memory.modify64, Memory.size_store64]
  · rw [countHit, Memory.modify64, Memory.size_store64, p.size_of_pop m hpop]

/-- Allocating keeps the size of the object. -/
@[simp] theorem size_allocate (n : UInt64) : (p.allocate n m).2.size = m.size := by
  rw [allocate]
  split
  · rfl
  · next start placed hplace =>
    obtain ⟨c, hrequest, hfound⟩ := Option.bind_eq_some_iff.1 hplace
    simp only [Memory.modify64, Memory.size_store64]
    exact p.size_of_place m (requestClass?_eq_some hrequest).1 hfound

/-- Writing to a block keeps the size of the object. -/
@[simp] theorem size_write (b : BlockRef) (bytes : List UInt8) :
    (p.write b bytes m).2.size = m.size := by
  obtain ⟨stored, -, heq⟩ := write_eq_store p b bytes m
  rw [heq, Memory.size_store]

/-- Giving back a block keeps the size of the object. -/
@[simp] theorem size_deallocate (b : BlockRef) : (p.deallocate b m).2.size = m.size := by
  rw [deallocate]
  split
  · rfl
  · dsimp only
    split
    · rfl
    · simp only [push, Memory.modify64, Memory.size_store64]

/-- Allocating with contents keeps the size of the object. -/
@[simp] theorem size_allocateWith (bytes : List UInt8) :
    (p.allocateWith bytes m).2.size = m.size := by
  have hsize := p.size_allocate m (UInt64.ofNat bytes.length)
  rw [allocateWith]
  split
  · next heq =>
    rw [heq] at hsize
    exact hsize
  · next b allocated heq =>
    have hwrite := p.size_write allocated b bytes
    rw [heq] at hsize
    split
    · next hw =>
      rw [hw] at hwrite
      exact hwrite.trans hsize
    · next hw =>
      rw [hw] at hwrite
      exact hwrite.trans hsize

/-- Whatever is answered to a request, the object is as it was left. -/
theorem fst_receive (live : List BlockRef) (answer : Except Fault BlockRef × Memory) :
    (receive live answer).1 = answer.2 := by
  obtain ⟨answer, m⟩ := answer
  cases answer <;> rfl

/-- No action changes the size of the object. -/
@[simp] theorem size_perform (live : List BlockRef) (action : Action) :
    (p.perform m live action).1.size = m.size := by
  cases action with
  | allocate n => rw [perform, fst_receive, size_allocate]
  | allocateWith bytes short => rw [perform, fst_receive, size_allocateWith]
  | write b bytes =>
    rw [perform]
    split
    · exact p.size_write m b bytes
    · rfl
  | edit b f =>
    rw [perform]
    split
    · obtain ⟨stored, -, heq⟩ := edit_eq_store p b (fun bytes => (.ok (), f bytes)) m
      rw [heq, Memory.size_store]
    · rfl
  | deallocate b =>
    have hsize := p.size_deallocate m b
    rw [perform]
    split
    · split
      · next heq =>
        rw [heq] at hsize
        exact hsize
      · next heq =>
        rw [heq] at hsize
        exact hsize
    · rfl

end

/-! ## All handles on one pool -/

/-- A pool with everybody who uses it. -/
structure Usage where
  directory : Directory
  /-- The object that the pool is laid over. -/
  object : ObjectId
  handles : List Pool
  /-- The references that were handed out and not yet given back. -/
  live : List BlockRef

/-- A step in the use of a pool: somebody else takes up a handle, or uses the handle he has. -/
inductive Event
  | attach (name : String)
  | act (handle : Nat) (action : Action)

namespace Usage

/-- The contents of the object. -/
def memory (u : Usage) : Memory := u.directory.memory u.object

/-- The pool has just been made. -/
def fresh (p : Pool) (d : Directory) : Usage := ⟨d, p.attachment.object, [p], []⟩

/-- What happens at an event. Names of other pools and handles that nobody has are passed over. -/
def step (u : Usage) : Event → Usage
  | .attach name =>
    let (found, d) := Pool.attach name u.directory
    let u := { u with directory := d }
    match found with
    | .ok p => if p.attachment.object = u.object then { u with handles := p :: u.handles } else u
    | .error _ => u
  | .act handle action =>
    match u.handles[handle]? with
    | none => u
    | some p =>
      let (m, live) := p.perform u.memory u.live action
      { u with directory := u.directory.update u.object m, live := live }

/-- Events in their order. -/
def run (u : Usage) (events : List Event) : Usage := events.foldl step u

/-- What the makers of a pool rely on: all handles agree with the one it was made with, and the
division lies inside the object. -/
structure Kept (p : Pool) (u : Usage) : Prop where
  sound : Sound p u.memory u.live
  inside : p.dataStart.toNat + p.size.toNat ≤ u.memory.size
  agree : ∀ q ∈ u.handles, q = { p with attachment := q.attachment }

variable {p : Pool} {u : Usage}

/-- Whoever opens a pool takes its measures from the header, so all handles agree. -/
theorem agree_step (hsound : Sound p u.memory u.live)
    (hagree : ∀ q ∈ u.handles, q = { p with attachment := q.attachment }) (event : Event) :
    ∀ q ∈ (u.step event).handles, q = { p with attachment := q.attachment } := by
  cases event with
  | attach name =>
    rw [Usage.step]
    dsimp only
    split
    · next q hq =>
      split
      · next hobject =>
        -- the words it reads are those that the maker wrote
        obtain ⟨blocks, stack, hdiv, -⟩ := hsound
        obtain ⟨hsize, hdata, -⟩ := eq_of_attach (Prod.ext hq rfl)
        have hmemory : u.directory.memory q.attachment.object = u.memory := by
          rw [hobject, memory]
        rw [hmemory, hdiv.size_eq] at hsize
        rw [hmemory, hdiv.dataStart_eq] at hdata
        intro a ha
        rcases List.mem_cons.1 ha with rfl | ha
        · rw [← hsize, ← hdata]
        · exact hagree a ha
      · exact hagree
    · exact hagree
  | act handle action =>
    rw [Usage.step]
    split <;> exact hagree

/-- An event leaves the object and the references in use as they are, or an action is performed on
them. As all handles agree, it does not matter through which. -/
theorem step_cases (hagree : ∀ q ∈ u.handles, q = { p with attachment := q.attachment })
    (event : Event) :
    ((u.step event).memory = u.memory ∧ (u.step event).live = u.live) ∨
      ∃ handle action, event = .act handle action ∧
        (u.step event).memory = (p.perform u.memory u.live action).1 ∧
        (u.step event).live = (p.perform u.memory u.live action).2 := by
  cases event with
  | attach name =>
    left
    have hd : (Pool.attach name u.directory).2 = u.directory := attach_snd ..
    rw [Usage.step]
    dsimp only
    rw [hd]
    split
    · split <;> exact ⟨rfl, rfl⟩
    · exact ⟨rfl, rfl⟩
  | act handle action =>
    rw [Usage.step]
    split
    · exact .inl ⟨rfl, rfl⟩
    · next q hq =>
      rw [hagree q (List.mem_of_getElem? hq), perform_reattach]
      exact .inr ⟨handle, action, rfl, Directory.memory_update_same .., rfl⟩

/-- Every event keeps what the makers rely on. -/
theorem Kept.step (hp : Proper p) (h : Kept p u) (event : Event) : Kept p (u.step event) := by
  refine ⟨?_, ?_, agree_step h.sound h.agree event⟩
  · obtain ⟨hmemory, hlive⟩ | ⟨-, action, -, hmemory, hlive⟩ := step_cases h.agree event
    · rw [hmemory, hlive]
      exact h.sound
    · rw [hmemory, hlive]
      exact h.sound.perform hp.toBased (h.sound.ample hp) action
  · obtain ⟨hmemory, -⟩ | ⟨-, action, -, hmemory, -⟩ := step_cases h.agree event
    · rw [hmemory]
      exact h.inside
    · rw [hmemory, size_perform]
      exact h.inside

/-- Every run of events keeps what the makers rely on. -/
theorem Kept.run (hp : Proper p) (h : Kept p u) (events : List Event) : Kept p (u.run events) := by
  induction events generalizing u with
  | nil => exact h
  | cons event events ih => exact ih (h.step hp event)

end Usage

/-! ## What the holders of references rely on -/

/-- The blocks ever cut fill everything below the bump cursor, inside the object. Each of them is
either in use or on the chain of its class, at one place of it alone, and those in use share no
byte. -/
structure Intact (p : Pool) (m : Memory) (live : List BlockRef) : Prop where
  divided : ∃ blocks stack, Divided p m (live.map BlockRef.start) blocks stack ∧
    (live.map BlockRef.start ++ (List.range classCount).flatMap stack).Nodup ∧
    ∀ b ∈ blocks, p.blockAt b + p.extent m b ≤ m.size
  within : ∀ b ∈ live, b.Within p m
  apart : live.Pairwise fun a b => p.blockAt a.start + p.extent m a.start ≤ p.blockAt b.start ∨
    p.blockAt b.start + p.extent m b.start ≤ p.blockAt a.start

/-- What keeps the pool sound is more than its holders ask for. -/
theorem Sound.intact {p : Pool} {m : Memory} {live : List BlockRef} (h : Sound p m live)
    (hinside : p.dataStart.toNat + p.size.toNat ≤ m.size) : Intact p m live := by
  have hapart := h.apart
  obtain ⟨blocks, stack, hdiv, hwithin⟩ := h
  refine ⟨⟨blocks, stack, hdiv, hdiv.nodup, ?_⟩, hwithin, hapart.imp ?_⟩
  · intro b hb
    have hbounds := hdiv.tiles.bounds hb
    have hbump := hdiv.bump_le
    rw [blockAt]
    omega
  · intro a b hab
    rw [blockAt, blockAt]
    omega

/-- A pool that was just made is a proper one, whose division lies inside its object. -/
theorem kept_fresh {name : String} {size : UInt64} {d d' : Directory} {p : Pool}
    (h : create name size d = (.ok p, d')) : Proper p ∧ (Usage.fresh p d').Kept p := by
  obtain ⟨-, hlimit, hp, hmemory⟩ := eq_of_create h
  have hheader : (UInt64.ofNat signature.headerSize).toNat = signature.headerSize := by decide
  have hmax : Directory.mappingLimit + 0x200000000000 < UInt64.size := by decide
  have hdata : p.dataStart = UInt64.ofNat signature.headerSize := by rw [hp]
  have hsize : p.size = size := by rw [hp]
  have hfresh : (Usage.fresh p d').memory = format p.size (Memory.zeros (wholeSize size)) := by
    rw [hsize]
    exact hmemory
  rw [wholeSize] at hlimit
  refine ⟨⟨⟨?_⟩, ?_⟩, ?_, ?_, ?_⟩
  · rw [hdata, hheader]
  · rw [hsize]
    omega
  · rw [hfresh]
    exact sound_format hdata (Memory.load64_zeros ..)
  · rw [hfresh, hdata, hsize, hheader, size_format, Memory.size_zeros, wholeSize]
  · intro q hq
    rw [List.mem_singleton.1 hq]

/-- However a pool is used, through whichever handles, it stays divided inside its object. -/
theorem intact_of_run {name : String} {size : UInt64} {d d' : Directory} {p : Pool}
    (h : create name size d = (.ok p, d')) (events : List Event) :
    ∀ q ∈ ((Usage.fresh p d').run events).handles,
      Intact q ((Usage.fresh p d').run events).memory ((Usage.fresh p d').run events).live := by
  intro q hq
  obtain ⟨hp, hfresh⟩ := kept_fresh h
  have hkept := hfresh.run hp events
  rw [hkept.agree q hq]
  exact (hkept.sound.reattach _).intact hkept.inside

/-- The smallest pool there is stays divided however it is used. -/
theorem intact_of_run_smallest : ∃ p d', create "blocks" 64 Directory.empty = (.ok p, d') ∧
    ∀ events, ∀ q ∈ ((Usage.fresh p d').run events).handles,
      Intact q ((Usage.fresh p d').run events).memory ((Usage.fresh p d').run events).live := by
  have hgrants : Directory.empty.Grants "blocks" (wholeSize 64) :=
    Directory.grants_empty (by decide) (by decide) (by decide)
  have hcreate := create_eq_ok_iff.2 ⟨⟨by decide, by decide⟩, hgrants, rfl, rfl⟩
  exact ⟨_, _, hcreate, intact_of_run hcreate⟩

end SharedExchange.Pool
