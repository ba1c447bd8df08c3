import Mathlib.Tactic
import SharedExchange.Proofs.Arena.Lifetime
import SharedExchange.Proofs.Pool.Usage
import SharedExchange.Proofs.Ring.Traffic

/-! # Objects that hold what is made in them

Rings, pools and regions are made with any number of slots or bytes, and the size of the object they
need is computed as a word. So there are three outcomes, and for each of the three structures it is
told exactly when each of them comes (`Attempted`): the number asked for is a possible one and the
directory grants an object of the size needed, and there is a handle; the number is a possible one,
but the size it needs is no word, and the attempt breaks off; or the attempt is refused. Whatever
was made lies in its object, to the byte, and whoever opens it gets the handle of its maker, but for
being a peer (`Attachment.peer`); a region must have been published for that. `made_iff` puts this
together for all three. -/

namespace SharedExchange

/-- The hold of somebody who found what another made. -/
def Attachment.peer (a : Attachment) : Attachment := { a with owner := false }

section

variable {α : Type} {d : Directory} {name : String} {possible : Prop} {whole : Nat}
  {answer : Except Failure α × Directory}

/-- What comes of an attempt to make a structure of `whole` bytes: a handle, a breakdown before
anything is done, or else a refusal. -/
structure Attempted (d : Directory) (name : String) (possible : Prop) (whole : Nat)
    (answer : Except Failure α × Directory) : Prop where
  ok_iff : (∃ r, answer.1 = .ok r) ↔ possible ∧ d.Grants name whole
  crashed_iff : ∀ crash, answer.1 = .error (.crashed crash) ↔
    crash = .overflow ∧ possible ∧ UInt64.size ≤ whole
  refused_iff : (∃ fault, answer.1 = .error (.refused fault)) ↔
    (possible → whole < UInt64.size ∧ ¬d.Grants name whole)
  unchanged : ∀ crash, answer.1 = .error (.crashed crash) → answer.2 = d

/-- An attempt to make what needs more bytes than a word can count breaks off. -/
theorem Attempted.eq_crashed (h : Attempted d name possible whole answer) (hpossible : possible)
    (hbeyond : UInt64.size ≤ whole) : answer = (.error (.crashed .overflow), d) := by
  have hcrash := (h.crashed_iff .overflow).2 ⟨rfl, hpossible, hbeyond⟩
  exact Prod.ext hcrash (h.unchanged _ hcrash)

/-- An attempt that is told apart from others by its handles and breakdowns. -/
theorem attempted_of_iff {handle : α} {made : Directory}
    (hok : ∀ r d', answer = (.ok r, d') ↔
      possible ∧ d.Grants name whole ∧ r = handle ∧ d' = made)
    (hcrashed : ∀ crash d', answer = (.error (.crashed crash), d') ↔
      possible ∧ UInt64.size ≤ whole ∧ crash = .overflow ∧ d' = d) :
    Attempted d name possible whole answer := by
  have hsuccess : ∀ r, answer.1 = .ok r → possible ∧ d.Grants name whole := fun r hr => by
    obtain ⟨hpossible, hgrants, -⟩ := (hok r answer.2).1 (Prod.ext hr rfl)
    exact ⟨hpossible, hgrants⟩
  have hbreakdown : ∀ crash, answer.1 = .error (.crashed crash) →
      possible ∧ UInt64.size ≤ whole ∧ crash = .overflow ∧ answer.2 = d := fun crash h =>
    (hcrashed crash answer.2).1 (Prod.ext h rfl)
  refine ⟨⟨fun ⟨r, hr⟩ => hsuccess r hr, fun ⟨hpossible, hgrants⟩ => ?_⟩,
    fun crash => ⟨fun h => ?_, ?_⟩, ⟨?_, fun hrest => ?_⟩,
    fun crash h => (hbreakdown crash h).2.2.2⟩
  · exact ⟨handle, congrArg Prod.fst ((hok handle made).2 ⟨hpossible, hgrants, rfl, rfl⟩)⟩
  · obtain ⟨hpossible, hbeyond, hcrash, -⟩ := hbreakdown crash h
    exact ⟨hcrash, hpossible, hbeyond⟩
  · rintro ⟨rfl, hpossible, hbeyond⟩
    exact congrArg Prod.fst ((hcrashed _ d).2 ⟨hpossible, hbeyond, rfl, rfl⟩)
  · rintro ⟨fault, hfault⟩ hpossible
    refine ⟨Nat.lt_of_not_le fun hbeyond => ?_, fun hgrants => ?_⟩
    · cases hfault.symm.trans
        (congrArg Prod.fst ((hcrashed _ d).2 ⟨hpossible, hbeyond, rfl, rfl⟩))
    · cases hfault.symm.trans
        (congrArg Prod.fst ((hok _ _).2 ⟨hpossible, hgrants, rfl, rfl⟩))
  · -- a refusal is what is neither of the others
    cases hanswer : answer.1 with
    | ok r =>
      obtain ⟨hpossible, hgrants⟩ := hsuccess r hanswer
      exact absurd hgrants (hrest hpossible).2
    | error failure =>
      cases failure with
      | refused fault => exact ⟨fault, rfl⟩
      | crashed crash =>
        obtain ⟨hpossible, hbeyond, -⟩ := hbreakdown crash hanswer
        exact absurd (hrest hpossible).1 (Nat.not_lt.2 hbeyond)

end

variable {name : String} {d d' : Directory}

namespace Ring

variable {capacity : UInt64} {patience : Patience} {r : Ring}

/-- What a ring is after it was made for so many slots. -/
structure Made (name : String) (capacity : UInt64) (r : Ring) (d : Directory) : Prop where
  capacity_eq : r.capacity = capacity
  size_eq : (d.memory r.attachment.object).size = 384 + 256 * capacity.toNat
  /-- Whoever opens it gets the handle of its maker, if the system lets him. -/
  found : d.Willing name → ∀ patience, attach name patience d =
    (.ok { r with attachment := r.attachment.peer, patience := patience }, d)

/-- A ring that was made holds its slots, and is found. -/
theorem made_of_create (h : create name capacity patience d = (.ok r, d')) :
    Made name capacity r d' := by
  obtain ⟨hpower, hgrants, rfl, rfl⟩ := create_eq_ok_iff.1 h
  have hsize : (format capacity (Memory.zeros (wholeSize capacity))).size = wholeSize capacity := by
    rw [size_format, Memory.size_zeros]
  refine ⟨rfl, ?_, fun hwilling patience => ?_⟩
  · rw [Directory.memory_establish, hsize]
    rfl
  · refine attach_eq_ok_iff.2 ⟨⟨_, ⟨hgrants.attach_establish hsize hwilling, ?_, ?_, ?_⟩, ?_⟩, rfl⟩
    all_goals simp only [Directory.memory_establish]
    · refine headed_format ?_
      rw [Memory.size_zeros, wholeSize]
      exact Nat.le_add_right ..
    · simp only [outline, load64_format_capacity, hpower]
    · simp only [outline, load64_format_capacity, hsize, le_refl]
    · rw [foundHandle, load64_format_capacity, load64_format _ _ (by decide),
        load64_format _ _ (by decide), Memory.load64_zeros, Memory.load64_zeros]
      rfl

end Ring

namespace Pool

variable {size : UInt64} {p : Pool}

/-- The signature of a fresh pool is not written over. -/
theorem get_format_front (size : UInt64) (m : Memory) {i : Nat} (hi : i < sizeAt) :
    (format size m).get i = (signature.write m).get i := by
  have hemptied : ∀ n (m : Memory),
      ((List.range n).foldl (fun m c => m.store64 (headAt c) nil) m).get i = m.get i := by
    intro n m
    induction n with
    | zero => rfl
    | succ n ih =>
      simp only [sizeAt] at hi
      rw [List.range_succ, List.foldl_append]
      simp only [List.foldl_cons, List.foldl_nil]
      rw [Memory.get_store64_of_disjoint _ _ (.inl (by rw [headAt]; omega)), ih]
  rw [format, hemptied, Memory.get_store64_of_disjoint _ _ (.inl (hi.trans (by decide))),
    Memory.get_store64_of_disjoint _ _ (.inl hi)]

/-- What a pool is after it was made with so many bytes of blocks. -/
structure Made (name : String) (size : UInt64) (p : Pool) (d : Directory) : Prop where
  size_eq : p.size = size
  object_eq : (d.memory p.attachment.object).size = 768 + size.toNat
  /-- Whoever opens it gets the handle of its maker, if the system lets him. -/
  found : d.Willing name → attach name d = (.ok { p with attachment := p.attachment.peer }, d)

/-- A pool that was made holds its blocks, and is found. -/
theorem made_of_create (h : create name size d = (.ok p, d')) : Made name size p d' := by
  obtain ⟨-, hgrants, rfl, rfl⟩ := create_eq_ok_iff.1 h
  have hsize : (format size (Memory.zeros (wholeSize size))).size = wholeSize size := by
    rw [size_format, Memory.size_zeros]
  refine ⟨rfl, ?_, fun hwilling => ?_⟩
  · rw [Directory.memory_establish, hsize]
    rfl
  · refine attach_eq_ok_iff.2
      ⟨⟨_, ⟨hgrants.attach_establish hsize hwilling, ?_, trivial, ?_⟩, ?_⟩, rfl⟩
    all_goals simp only [Directory.memory_establish]
    · refine Signature.opens_of_front ?_ fun i hi =>
        get_format_front size (Memory.zeros (wholeSize size)) hi
      rw [hsize, wholeSize]
      exact Nat.le_add_right ..
    · simp only [outline, load64_format_size, load64_format_dataStart]
      rw [hsize, wholeSize]
      exact Nat.le_refl _
    · rw [foundHandle, load64_format_size, load64_format_dataStart]
      rfl

end Pool

namespace Region

open Life (Next fresh)

variable {size : UInt64} {r : Region} {x x' : Life} {made : Memory}

/-- A region keeps its object and the name under which it was made. -/
theorem Life.identity_run (hrun : Relation.ReflTransGen Next x x') :
    x'.object = x.object ∧ x'.name = x.name := by
  induction hrun with
  | refl => exact ⟨rfl, rfl⟩
  | tail _ hnext ih => cases hnext <;> exact ih

/-- Whoever opens a ready region finds in its header what its maker put there. -/
theorem Life.Kept.attach_ready (h : x.Kept made) (hready : x.stage = .ready)
    (hinside : outline.areaEnd made ≤ made.size) (hwilling : x.directory.Willing x.name) :
    Region.attach x.name x.directory = (.ok ⟨⟨x.object, x.name, made.size, false⟩, freshArenaStart,
      made.load64 capacityAt⟩, x.directory) := by
  have howned : x.owned = true := by
    by_contra hnot
    rw [Life.stage_eq_tornDown_iff.2 (Bool.not_eq_true _ ▸ hnot)] at hready
    cases hready
  have hword : ∀ position, arenaStartAt ≤ position → position + 8 ≤ usedAt →
      x.memory.load64 position = made.load64 position := fun position hfrom hto =>
    Memory.load64_congr fun i hi hi' => h.frame.place i (hfrom.trans hi) (hi'.trans_le hto)
  have hstart := hword arenaStartAt (by decide) (by decide)
  have hcapacity := hword capacityAt (by decide) (by decide)
  refine attach_eq_ok_iff.2
    ⟨⟨_, ⟨h.found howned hwilling, ⟨h.opens, ?_⟩, trivial, ?_⟩, ?_⟩, rfl⟩
  · exact hready ▸ h.state_eq
  · show outline.areaEnd x.memory ≤ x.memory.size
    rw [h.frame.size_eq]
    simp only [outline, hstart, hcapacity]
    exact hinside
  · show _ = foundHandle _ x.memory
    rw [foundHandle, hstart, hcapacity, h.arenaStart_eq, h.frame.size_eq]

/-- What a region is after it was made with an arena of so many bytes. -/
structure Made (name : String) (size : UInt64) (r : Region) (d : Directory) : Prop where
  capacity_eq : r.capacity.toNat = Arena.padded size.toNat
  size_eq : (d.memory r.attachment.object).size = 64 + Arena.padded size.toNat
  /-- Whoever opens it, at any time between publishing and letting go, gets the handle of its maker,
  if the system lets him. -/
  found : ∀ x, Relation.ReflTransGen Next (fresh r d) x → x.stage = .ready →
    x.directory.Willing name →
      attach name x.directory = (.ok { r with attachment := r.attachment.peer }, x.directory)

/-- A region that was made holds its arena, and is found once it is ready. -/
theorem made_of_create (h : create name size d = (.ok r, d')) : Made name size r d' := by
  have hkept := Life.kept_fresh h
  obtain ⟨-, -, harena, hcapacity⟩ := eq_of_create h
  have hround := (owner_of_create h).2
  obtain ⟨-, -, hr, hd⟩ := create_eq_ok_iff.1 h
  have hsize : (d'.memory r.attachment.object).size = wholeSize size := by
    rw [hd, hr, Directory.memory_establish, size_format, Memory.size_zeros]
  refine ⟨hround, hsize, fun x hrun hready hwilling => ?_⟩
  have hinside : outline.areaEnd (d'.memory r.attachment.object) ≤
      (d'.memory r.attachment.object).size := by
    simp only [outline, harena, hcapacity, hround, hsize, wholeSize, le_refl]
  obtain ⟨hobject, hname⟩ := Life.identity_run hrun
  have hnamed : x.name = name := by rw [hname, fresh, hr]
  have hattach := (hkept.run hrun).attach_ready hready hinside (hnamed.symm ▸ hwilling)
  rw [hobject, hnamed, hcapacity, hsize] at hattach
  simp only [fresh] at hattach
  rw [hattach, hr]
  rfl

end Region

/-- A ring, a pool or a region is made when the number asked for is a possible one and the directory
grants an object of the size it needs; the attempt breaks off when that size is no word, and is
refused in all other cases. Whatever is made has an object of exactly the size it needs, and others
find in it what was made. -/
theorem made_iff (name : String) (d : Directory) :
    (∀ capacity patience,
      Attempted d name capacity.toNat.isPowerOfTwo (384 + 256 * capacity.toNat)
        (Ring.create name capacity patience d) ∧
      ∀ r d', Ring.create name capacity patience d = (.ok r, d') →
        Ring.Made name capacity r d') ∧
    (∀ size,
      Attempted d name (Pool.Granular size) (768 + size.toNat) (Pool.create name size d) ∧
      ∀ p d', Pool.create name size d = (.ok p, d') → Pool.Made name size p d') ∧
    ∀ size,
      Attempted d name (Arena.headerSize ≤ size.toNat) (64 + Arena.padded size.toNat)
        (Region.create name size d) ∧
      ∀ r d', Region.create name size d = (.ok r, d') → Region.Made name size r d' :=
  ⟨fun _ _ => ⟨attempted_of_iff (fun _ _ => Ring.create_eq_ok_iff)
      fun _ _ => Ring.create_eq_crashed_iff, fun _ _ => Ring.made_of_create⟩,
    fun _ => ⟨attempted_of_iff (fun _ _ => Pool.create_eq_ok_iff)
      fun _ _ => Pool.create_eq_crashed_iff, fun _ _ => Pool.made_of_create⟩,
    fun _ => ⟨attempted_of_iff (fun _ _ => Region.create_eq_ok_iff)
      fun _ _ => Region.create_eq_crashed_iff, fun _ _ => Region.made_of_create⟩⟩

/-- The attempts to make a ring of 2⁵⁶ slots, a pool of 2⁶⁴ - 64 bytes and a region of 2⁶⁴ - 56
break off, and nothing is made. A ring of two slots is made, and found. -/
theorem made_iff_beyond :
    Ring.create "events" 0x100000000000000 default Directory.empty =
      (.error (.crashed .overflow), Directory.empty) ∧
    Pool.create "blocks" 0xffffffffffffffc0 Directory.empty =
      (.error (.crashed .overflow), Directory.empty) ∧
    Region.create "scene" 0xffffffffffffffc8 Directory.empty =
      (.error (.crashed .overflow), Directory.empty) ∧
    ∃ r d', Ring.create "events" 2 default Directory.empty = (.ok r, d') ∧
      (d'.memory r.attachment.object).size = 896 ∧
      Ring.attach "events" default d' =
        (.ok { r with attachment := r.attachment.peer, patience := default }, d') := by
  refine ⟨?_, ?_, ?_, ?_⟩
  · exact ((made_iff "events" _).1 _ default).1.eq_crashed ⟨56, rfl⟩ (by decide)
  · exact ((made_iff "blocks" _).2.1 _).1.eq_crashed ⟨by decide, by decide⟩ (by decide)
  · exact ((made_iff "scene" _).2.2 _).1.eq_crashed (by decide) (by decide)
  · obtain ⟨hattempted, hmade⟩ := (made_iff "events" Directory.empty).1 2 default
    obtain ⟨r, hr⟩ := hattempted.ok_iff.2
      ⟨⟨1, rfl⟩, Directory.grants_empty (by decide) (by decide) (by decide)⟩
    have hcreate : Ring.create "events" 2 default Directory.empty = (.ok r, _) := Prod.ext hr rfl
    have hring := hmade r _ hcreate
    refine ⟨r, _, hcreate, hring.size_eq, hring.found ?_ default⟩
    obtain ⟨-, -, -, hd⟩ := Ring.create_eq_ok_iff.1 hcreate
    rw [hd]
    exact Directory.willing_empty "events"

end SharedExchange
