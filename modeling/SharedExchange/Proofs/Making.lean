import Mathlib.Tactic
import SharedExchange.Proofs.Attaching

/-! # What it takes to make something

An object is made under a name exactly when the name is well formed and free, the system has nothing
against it and a mapping of its size can exist (`Directory.create_eq_ok_iff`). A structure is laid
over an object of its size if that is a word at all; else the attempt breaks off, and nothing has
been asked for (`Directory.lay_eq_ok_iff`, `Directory.lay_eq_crashed_iff`). For each structure,
`create_eq_ok_iff` says when it is made and how the directory looks afterwards. -/

namespace SharedExchange

namespace Directory

variable {d d' : Directory} {name : String} {a : Attachment} {m : Memory}

/-- A name can be claimed when it is well formed and free and the system has nothing against it. -/
theorem checkClaim_eq_ok_iff {u : Unit} : d.checkClaim name = .ok u ↔
    checkName name = .ok () ∧ d.objection name .create = none ∧ d.names.contains name = false := by
  simp only [checkClaim, bind_eq_ok_iff, ask_eq_ok_iff]
  cases d.names.contains name with
  | true => simp [throw, throwThe, MonadExceptOf.throw]
  | false =>
    constructor
    · rintro ⟨_, hname, _, hcreate, -⟩
      exact ⟨hname, hcreate, rfl⟩
    · rintro ⟨hname, hcreate, -⟩
      exact ⟨(), hname, (), hcreate, rfl⟩

/-- An object can be given a size when the system has nothing against it and no file is smaller. -/
theorem checkSizing_eq_ok_iff {size : Nat} {u : Unit} : d.checkSizing name size = .ok u ↔
    d.objection name (.resize size) = none ∧ size ≤ fileLimit := by
  simp only [checkSizing, bind_eq_ok_iff, ask_eq_ok_iff]
  by_cases h : fileLimit < size
  · simp [h, Nat.not_le.2 h, throw, throwThe, MonadExceptOf.throw]
  · simp [h, Nat.not_lt.1 h, pure, Except.pure]

/-- An object of `size` bytes can be made under a name. -/
structure Grants (d : Directory) (name : String) (size : Nat) : Prop where
  name_ok : checkName name = .ok ()
  create_ok : d.objection name .create = none
  free : d.names.contains name = false
  resize_ok : d.objection name (.resize size) = none
  map_ok : d.objection name (.map size) = none
  size_ne : size ≠ 0
  size_le : size ≤ mappingLimit

/-- A size that is granted is a word. -/
theorem Grants.size_lt {size : Nat} (h : d.Grants name size) : size < UInt64.size :=
  h.size_le.trans_lt (by decide)

/-- A willing system grants what the limits allow. -/
theorem Willing.grants {size : Nat} (h : d.Willing name) (hname : checkName name = .ok ())
    (hfree : d.names.contains name = false) (hne : size ≠ 0) (hle : size ≤ mappingLimit) :
    d.Grants name size :=
  ⟨hname, h _, hfree, h _, h _, hne, hle⟩

/-- The system that has been asked for nothing yet is willing. -/
theorem willing_empty (name : String) : empty.Willing name := fun _ => rfl

/-- When nothing has been made yet, whatever the limits allow is granted. -/
theorem grants_empty {size : Nat} (hname : checkName name = .ok ()) (hne : size ≠ 0)
    (hle : size ≤ mappingLimit) : empty.Grants name size :=
  (willing_empty name).grants hname (by simp [empty]) hne hle

/-- An object is made when the directory grants it. -/
theorem create_eq_ok_iff {size : UInt64} : d.create name size = (.ok a, d') ↔
    d.Grants name size.toNat ∧ a = ⟨d.nextObject, name, size.toNat, true⟩ ∧
      d' = (d.claim name).2.update d.nextObject (Memory.zeros size.toNat) := by
  have hzero : size.toNat = 0 ↔ size = 0 := UInt64.toNat_inj (b := 0)
  have hfile : mappingLimit ≤ fileLimit := by decide
  constructor
  · intro h
    rw [create] at h
    split at h
    · cases (Prod.mk.inj h).1
    · next hsize =>
      split at h
      · cases (Prod.mk.inj h).1
      · next hclaim =>
        obtain ⟨hname, hcreate, hfree⟩ := checkClaim_eq_ok_iff.1 hclaim
        dsimp only at h
        split at h
        · cases (Prod.mk.inj h).1
        · next hsizing =>
          split at h
          · cases (Prod.mk.inj h).1
          · next hmapping =>
            obtain ⟨hresize, -⟩ := checkSizing_eq_ok_iff.1 hsizing
            obtain ⟨hmap, hlimit⟩ := checkMapping_eq_ok_iff.1 hmapping
            obtain ⟨ha, hd⟩ := Prod.mk.inj h
            exact ⟨⟨hname, hcreate, hfree, hresize, hmap, mt hzero.1 hsize, hlimit⟩,
              (Except.ok.inj ha).symm, hd.symm⟩
  · rintro ⟨h, rfl, rfl⟩
    have hclaim : d.checkClaim name = .ok () :=
      checkClaim_eq_ok_iff.2 ⟨h.name_ok, h.create_ok, h.free⟩
    have hsizing : d.checkSizing name size.toNat = .ok () :=
      checkSizing_eq_ok_iff.2 ⟨h.resize_ok, h.size_le.trans hfile⟩
    have hmapping : d.checkMapping name size.toNat = .ok () :=
      checkMapping_eq_ok_iff.2 ⟨h.map_ok, h.size_le⟩
    -- the three stages follow each other
    rw [create, if_neg (mt hzero.2 h.size_ne), hclaim]
    dsimp only
    rw [hsizing]
    dsimp only
    rw [hmapping]
    rfl

/-- The directory with a new object under a name: first of zero bytes, then of the contents that a
structure starts with. -/
def establish (d : Directory) (name : String) (size : Nat) (m : Memory) : Directory :=
  ((d.claim name).2.update d.nextObject (Memory.zeros size)).update d.nextObject m

/-- A new object has the contents that it was given. -/
@[simp] theorem memory_establish (d : Directory) (name : String) (size : Nat) (m : Memory) :
    (d.establish name size m).memory d.nextObject = m := memory_update_same ..

/-- The objects that were there before keep their contents. -/
theorem memory_establish_of_ne (d : Directory) (name : String) (size : Nat) (m : Memory)
    {id : ObjectId} (h : id ≠ d.nextObject) :
    (d.establish name size m).memory id = d.memory id := by
  rw [establish, memory_update_of_ne _ _ h, memory_update_of_ne _ _ h]
  simp only [memory, claim, Std.TreeMap.getD_insert, Std.LawfulEqCmp.compare_eq_iff_eq, h.symm,
    if_false]

/-- The name leads to the new object. -/
@[simp] theorem getElem?_names_establish (d : Directory) (name : String) (size : Nat) (m : Memory) :
    (d.establish name size m).names[name]? = some (.object d.nextObject) :=
  getElem?_names_claim d name

/-- A new object is offered by its name, if the system has nothing against finding it. -/
theorem Grants.offers_establish {size : Nat} (h : d.Grants name size) (hm : m.size = size)
    (hwilling : d.Willing name) :
    (d.establish name size m).Offers name ⟨d.nextObject, name, size, false⟩ := by
  refine ⟨h.name_ok, hwilling _, getElem?_names_establish d name size m, hwilling _, ?_,
    hwilling _, ?_, ?_⟩
  all_goals rw [memory_establish, hm]
  exacts [h.size_ne, h.size_le]

/-- A new object is found under its name. -/
theorem Grants.attach_establish {size : Nat} (h : d.Grants name size) (hm : m.size = size)
    (hwilling : d.Willing name) :
    (d.establish name size m).attach name = .ok ⟨d.nextObject, name, size, false⟩ :=
  attach_eq_ok_iff.2 (h.offers_establish hm hwilling)

section

variable {α : Type} {whole : Nat} {handle : Attachment → α} {format : Memory → Memory}

/-- A structure is laid over a new object when the directory grants one of its size. -/
theorem lay_eq_ok_iff {r : α} : d.lay name whole handle format = (.ok r, d') ↔
    d.Grants name whole ∧ r = handle ⟨d.nextObject, name, whole, true⟩ ∧
      d' = d.establish name whole (format (Memory.zeros whole)) := by
  constructor
  · intro h
    rw [lay] at h
    split at h
    · cases (Prod.mk.inj h).1
    · next size hsize =>
      obtain ⟨hlt, rfl⟩ := checked_eq_ok_iff.1 hsize
      split at h
      · cases (Prod.mk.inj h).1
      · next a made hmade =>
        obtain ⟨hgrants, rfl, rfl⟩ := create_eq_ok_iff.1 hmade
        obtain ⟨hr, hd⟩ := Prod.mk.inj h
        rw [memory_update_same] at hd
        rw [UInt64.toNat_ofNat_of_lt' hlt] at hgrants hr hd
        exact ⟨hgrants, (Except.ok.inj hr).symm, hd.symm⟩
  · rintro ⟨hgrants, rfl, rfl⟩
    have hword : (UInt64.ofNat whole).toNat = whole := UInt64.toNat_ofNat_of_lt' hgrants.size_lt
    have hcreate : d.create name (UInt64.ofNat whole) = (.ok _, _) :=
      create_eq_ok_iff.2 ⟨hword.symm ▸ hgrants, rfl, rfl⟩
    rw [lay, checked_eq_ok_iff.2 ⟨hgrants.size_lt, rfl⟩]
    dsimp only
    rw [hcreate, hword]
    simp only [memory_update_same, establish]

/-- Laying a structure breaks off when its size is no word, and then before anything is done. -/
theorem lay_eq_crashed_iff {crash : Crash} :
    d.lay name whole handle format = (.error (.crashed crash), d') ↔
      UInt64.size ≤ whole ∧ crash = .overflow ∧ d' = d := by
  rw [lay]
  split
  · next failure hfailure =>
    rw [checked] at hfailure
    split at hfailure
    · cases hfailure
    · next hge =>
      cases hfailure
      simp [Nat.not_lt.1 hge, eq_comm]
  · next size hsize =>
    have hlt := (checked_eq_ok_iff.1 hsize).1
    have hnot : ¬UInt64.size ≤ whole := Nat.not_le.2 hlt
    split <;> simp [hnot]

end

end Directory

namespace Ring

/-- When a ring is made, and what there is then. -/
theorem create_eq_ok_iff {name : String} {capacity : UInt64} {patience : Patience}
    {d d' : Directory} {r : Ring} : create name capacity patience d = (.ok r, d') ↔
      capacity.toNat.isPowerOfTwo ∧ d.Grants name (wholeSize capacity) ∧
        r = ⟨⟨d.nextObject, name, wholeSize capacity, true⟩, capacity, 0, 0, patience⟩ ∧
        d' = d.establish name (wholeSize capacity)
          (format capacity (Memory.zeros (wholeSize capacity))) := by
  rw [create]
  split
  · next hpower =>
    rw [and_iff_right hpower]
    exact Directory.lay_eq_ok_iff
  · next hpower => simp [hpower]

/-- When the making of a ring breaks off. -/
theorem create_eq_crashed_iff {name : String} {capacity : UInt64} {patience : Patience}
    {d d' : Directory} {crash : Crash} :
    create name capacity patience d = (.error (.crashed crash), d') ↔
      capacity.toNat.isPowerOfTwo ∧ UInt64.size ≤ wholeSize capacity ∧ crash = .overflow ∧
        d' = d := by
  rw [create]
  split
  · next hpower =>
    rw [and_iff_right hpower]
    exact Directory.lay_eq_crashed_iff
  · next hpower => simp [hpower]

end Ring

namespace Pool

/-- The sizes that a pool can have. -/
def Granular (size : UInt64) : Prop := minBlock ≤ size.toNat ∧ size.toNat % minBlock = 0

/-- A pool of a possible size is laid over its object. -/
theorem create_eq_lay {size : UInt64} (h : Granular size) (name : String) (d : Directory) :
    create name size d = d.lay name (wholeSize size)
      (fun a => ⟨a, size, UInt64.ofNat signature.headerSize⟩) (format size) := by
  obtain ⟨hmin, hmod⟩ := h
  rw [create, if_neg (by simp [Nat.not_lt.2 hmin, hmod])]

/-- A pool of another size is refused. -/
theorem create_of_not_granular {size : UInt64} (h : ¬Granular size) (name : String)
    (d : Directory) :
    create name size d = (.error (.refused (.sizeUnusable size.toNat .poolGranularity)), d) := by
  rw [create, if_pos]
  rw [Granular, not_and_or, Nat.not_le] at h
  simpa using h

/-- When a pool is made, and what there is then. -/
theorem create_eq_ok_iff {name : String} {size : UInt64} {d d' : Directory} {p : Pool} :
    create name size d = (.ok p, d') ↔
      Granular size ∧ d.Grants name (wholeSize size) ∧
        p = ⟨⟨d.nextObject, name, wholeSize size, true⟩, size,
          UInt64.ofNat signature.headerSize⟩ ∧
        d' = d.establish name (wholeSize size) (format size (Memory.zeros (wholeSize size))) := by
  by_cases h : Granular size
  · rw [create_eq_lay h, and_iff_right h]
    exact Directory.lay_eq_ok_iff
  · simp [create_of_not_granular h, h]

/-- When the making of a pool breaks off. -/
theorem create_eq_crashed_iff {name : String} {size : UInt64} {d d' : Directory} {crash : Crash} :
    create name size d = (.error (.crashed crash), d') ↔
      Granular size ∧ UInt64.size ≤ wholeSize size ∧ crash = .overflow ∧ d' = d := by
  by_cases h : Granular size
  · rw [create_eq_lay h, and_iff_right h]
    exact Directory.lay_eq_crashed_iff
  · simp [create_of_not_granular h, h]

end Pool

namespace LatestRecord

/-- When a cell is made, and what there is then. -/
theorem create_eq_ok_iff {name : String} {type : RecordType} {first : List UInt8}
    {d d' : Directory} {c : LatestRecord} : create name type first d = (.ok c, d') ↔
      d.Grants name (wholeSize type) ∧
        c = ⟨⟨d.nextObject, name, wholeSize type, true⟩, type,
          UInt64.ofNat (freshSlotsStart type), 0⟩ ∧
        d' = d.establish name (wholeSize type)
          (format type first (Memory.zeros (wholeSize type))) :=
  Directory.lay_eq_ok_iff

end LatestRecord

namespace Region

/-- When a region is made, and what there is then. -/
theorem create_eq_ok_iff {name : String} {size : UInt64} {d d' : Directory} {r : Region} :
    create name size d = (.ok r, d') ↔
      Arena.headerSize ≤ size.toNat ∧ d.Grants name (wholeSize size) ∧
        r = ⟨⟨d.nextObject, name, wholeSize size, true⟩, freshArenaStart, freshCapacity size⟩ ∧
        d' = d.establish name (wholeSize size)
          (format (freshCapacity size) (Memory.zeros (wholeSize size))) := by
  rw [create]
  split
  · next hsmall => simp [Nat.not_le.2 hsmall]
  · next hlarge =>
    rw [and_iff_right (Nat.not_lt.1 hlarge)]
    exact Directory.lay_eq_ok_iff

/-- When the making of a region breaks off. -/
theorem create_eq_crashed_iff {name : String} {size : UInt64} {d d' : Directory} {crash : Crash} :
    create name size d = (.error (.crashed crash), d') ↔
      Arena.headerSize ≤ size.toNat ∧ UInt64.size ≤ wholeSize size ∧ crash = .overflow ∧
        d' = d := by
  rw [create]
  split
  · next hsmall => simp [Nat.not_le.2 hsmall]
  · next hlarge =>
    rw [and_iff_right (Nat.not_lt.1 hlarge)]
    exact Directory.lay_eq_crashed_iff

/-- The capacity of a region that can be made is its size rounded up. -/
theorem toNat_freshCapacity {size : UInt64} (h : wholeSize size < UInt64.size) :
    (freshCapacity size).toNat = Arena.padded size.toNat := by
  rw [wholeSize] at h
  exact UInt64.toNat_ofNat_of_lt' ((Nat.le_add_left ..).trans_lt h)

end Region

end SharedExchange
