import Mathlib.Tactic
import SharedExchange.Proofs.Arena.Session

/-! # Measuring beforehand

Two recursions go through a value: `measure` counts the room that it needs, and `Writer.put` takes
it. An unchecked arena is written on the word of the first alone. `Foreseen` collects what that word
is worth: writing takes exactly the measured room in both modes, so a value is published exactly
when the arena is as large as was measured, nothing is written outside the arena, the two modes
write the same nodes, and a region that was made for a value holds it (`foreseen_of_coherent`). -/

namespace SharedExchange

namespace Arena

variable {site : Site} {v : Value} {m : Memory} {w : Writer} {offset : Nat}

/-- Writing takes exactly the measured room. -/
theorem cursor_of_put (hcoherent : v.Coherent)
    (hput : Writer.put site v ⟨m, 0, 0, ∅⟩ = (.ok offset, w)) : w.cursor = requiredSize v := by
  have hroom := (put_room hcoherent v v.self_mem_parts (agrees_fresh m)
    (fun _ _ _ _ hopen => hopen) hput).1
  rwa [Nat.zero_add] at hroom

/-- A value is written to its end exactly when the room is not checked or large enough. -/
theorem put_ok_iff (hcoherent : v.Coherent) :
    (∃ offset w, Writer.put site v ⟨m, 0, 0, ∅⟩ = (.ok offset, w)) ↔
      (site.mode = .checked → requiredSize v ≤ site.capacity) := by
  constructor
  · rintro ⟨offset, w, hput⟩ hmode
    have hspent := put_spent site v ⟨m, 0, 0, ∅⟩
    rw [hput] at hspent
    rw [← cursor_of_put hcoherent hput]
    exact hspent.within hmode (Nat.zero_le _)
  · intro hroom
    -- without checks everything is written, and the same is written where there is room for it
    obtain ⟨offset, w, hput⟩ := put_of_fast ⟨site.start, site.capacity, .fast⟩ rfl v
      ⟨m, 0, 0, ∅⟩
    have hadmits : Admits site ⟨site.start, site.capacity, .fast⟩ w :=
      ⟨rfl, fun hmode => (cursor_of_put hcoherent hput).trans_le (hroom hmode)⟩
    obtain ⟨w', hput', -⟩ :=
      put_alike (P := fun _ => True) v ⟨rfl, rfl, rfl, fun _ _ => rfl⟩ hput hadmits
    exact ⟨offset, w', hput'⟩

end Arena

namespace Region

open Arena (Alike BuildMode Site Writer requiredSize)

variable {r r' : Region} {v : Value} {mode mode' : BuildMode} {m m' out out' : Memory} {i : Nat}

/-- Whether a position of the object belongs to the arena. -/
def Covers (r : Region) (i : Nat) : Prop :=
  r.arenaStart.toNat ≤ i ∧ i < r.arenaStart.toNat + r.capacity.toNat

/-! ## Building -/

/-- The site of a region. -/
def site (r : Region) (mode : BuildMode) : Site := ⟨r.arenaStart.toNat, r.capacity.toNat, mode⟩

/-- Building is writing, once the room was measured if it is not checked: the size at the end never
disagrees with the measured one. -/
theorem build_eq (hcoherent : v.Coherent) : r.build v mode m =
    if mode = .fast ∧ r.capacity.toNat < requiredSize v then
      (.error (.arenaExhausted (requiredSize v) r.capacity.toNat), ⟨m, 0, 0, ∅⟩)
    else Writer.put (r.site mode) v ⟨m, 0, 0, ∅⟩ := by
  rw [build]
  simp only
  split
  · rfl
  · rw [← site]
    split
    · next hput => exact hput.symm
    · next root w hput =>
      have hagrees : ¬(mode = .checked ∧ w.cursor ≠ requiredSize v) := fun hne =>
        hne.2 (Arena.cursor_of_put hcoherent hput)
      rw [if_neg hagrees, hput]

/-- What has the measured room is built. -/
theorem build_of_le (hcoherent : v.Coherent) (hle : requiredSize v ≤ r.capacity.toNat)
    (mode : BuildMode) (m : Memory) : ∃ root w, r.build v mode m = (.ok root, w) ∧
      Writer.put (r.site mode) v ⟨m, 0, 0, ∅⟩ = (.ok root, w) := by
  obtain ⟨root, w, hput⟩ : ∃ root w, Writer.put (r.site mode) v ⟨m, 0, 0, ∅⟩ = (.ok root, w) :=
    (Arena.put_ok_iff hcoherent).2 fun _ => hle
  refine ⟨root, w, ?_, hput⟩
  rw [build_eq hcoherent, if_neg (fun hlt => Nat.not_lt.2 hle hlt.2), hput]

/-- What has not the measured room exhausts the arena, in both modes. -/
theorem build_of_lt (hcoherent : v.Coherent) (hlt : r.capacity.toNat < requiredSize v)
    (mode : BuildMode) (m : Memory) : ∃ requested remaining w,
      r.build v mode m = (.error (.arenaExhausted requested remaining), w) := by
  rw [build_eq hcoherent]
  cases mode with
  | fast => exact ⟨_, _, _, if_pos ⟨rfl, hlt⟩⟩
  | checked =>
    have hspent := Arena.put_spent (r.site .checked) v ⟨m, 0, 0, ∅⟩
    rw [if_neg (fun hfast => by cases hfast.1)]
    cases hput : Writer.put (r.site .checked) v ⟨m, 0, 0, ∅⟩ with
    | mk answer w =>
      cases answer with
      | ok root =>
        have hle := (Arena.put_ok_iff hcoherent).1 ⟨root, w, hput⟩ rfl
        exact absurd hle (Nat.not_le.2 hlt)
      | error fault =>
        rw [hput] at hspent
        obtain ⟨requested, remaining, rfl⟩ := (hspent.fault fault rfl).2
        exact ⟨requested, remaining, w, rfl⟩

/-- A value that was built had the measured room. -/
theorem put_of_build {root : Nat} {w : Writer} (hcoherent : v.Coherent)
    (h : r.build v mode m = (.ok root, w)) : requiredSize v ≤ r.capacity.toNat ∧
      Writer.put (r.site mode) v ⟨m, 0, 0, ∅⟩ = (.ok root, w) := by
  rcases Nat.lt_or_ge r.capacity.toNat (requiredSize v) with hlt | hle
  · obtain ⟨requested, remaining, w', hfailed⟩ := build_of_lt hcoherent hlt mode m
    rw [hfailed] at h
    cases (Prod.mk.inj h).1
  · obtain ⟨root', w', hbuild, hput⟩ := build_of_le hcoherent hle mode m
    rw [← h, hbuild]
    exact ⟨hle, hput⟩

/-- Building changes no byte outside the arena. -/
theorem get_build_outside (hcoherent : v.Coherent) (hi : ¬r.Covers i) (mode : BuildMode)
    (m : Memory) : (r.build v mode m).2.memory.get i = m.get i := by
  rw [Covers] at hi
  rw [build_eq hcoherent]
  split
  · rfl
  · next hroom =>
    have hspent := Arena.put_spent (r.site mode) v ⟨m, 0, 0, ∅⟩
    have hcursor : (Writer.put (r.site mode) v ⟨m, 0, 0, ∅⟩).2.cursor ≤ r.capacity.toNat := by
      cases mode with
      | checked => exact hspent.within rfl (Nat.zero_le _)
      | fast =>
        -- nothing is checked on the way, but all of it was measured
        obtain ⟨offset, w, hput⟩ := Arena.put_of_fast (r.site .fast) rfl v ⟨m, 0, 0, ∅⟩
        rw [hput, Arena.cursor_of_put hcoherent hput]
        exact Nat.not_lt.1 fun hlt => hroom ⟨rfl, hlt⟩
    refine hspent.get_eq i ?_
    show i < r.arenaStart.toNat + 0 ∨ r.arenaStart.toNat + _ ≤ i
    omega

/-! ## Publishing -/

/-- In an empty region, its maker builds the value and announces it. -/
theorem publish_of_empty (howner : r.attachment.owner = true)
    (hempty : m.load32 stateAt = RegionState.empty.code) (v : Value) (mode : BuildMode) :
    (r.publish v mode m).1 = (r.build v mode (enter .building m)).1.map fun _ => () := by
  rw [publish, if_neg (by simp [howner, hempty])]
  split
  · next hbuild => rw [hbuild]; rfl
  · next hbuild => rw [hbuild]; rfl

/-- Publishing changes no byte outside the header and the arena. -/
theorem get_publish_outside (hcoherent : v.Coherent)
    (hheader : i < stateAt ∨ signature.headerSize ≤ i) (hi : ¬r.Covers i) :
    (r.publish v mode m).2.get i = m.get i := by
  have hbuild := get_build_outside hcoherent hi mode (enter .building m)
  simp only [stateAt, signature] at hheader
  have hstage : ∀ (stage : RegionState) m, (enter stage m).get i = m.get i := fun stage m =>
    get_enter stage m (by rw [stateAt]; omega)
  rw [hstage] at hbuild
  rw [publish]
  split
  · rfl
  · split
    · next hfailed =>
      rw [hfailed] at hbuild
      exact (hstage _ _).trans hbuild
    · next hdone =>
      rw [hdone] at hbuild
      rw [hstage, Memory.get_store64_of_disjoint _ _ (by rw [nodeCountAt]; omega),
        Memory.get_store64_of_disjoint _ _ (by rw [rootAt]; omega),
        Memory.get_store64_of_disjoint _ _ (by rw [usedAt]; omega),
        Memory.get_store32_of_disjoint _ _ (by rw [modeAt]; omega), hbuild]

/-- An attempt that fails announces nothing: the header says behind the stage what it said. -/
theorem get_of_publish_error {fault : Fault} (hstart : signature.headerSize ≤ r.arenaStart.toNat)
    (h : r.publish v mode m = (.error fault, out)) (hfrom : modeAt ≤ i)
    (hto : i < signature.headerSize) : out.get i = m.get i := by
  have hstage : ∀ (stage : RegionState) m, (enter stage m).get i = m.get i := fun stage m =>
    get_enter stage m (.inr hfrom)
  have hbuild := get_build r v mode (enter .building m) (hto.trans_le hstart)
  rw [publish] at h
  split at h
  · rw [← (Prod.mk.inj h).2]
  · split at h
    · next hfailed =>
      rw [hfailed] at hbuild
      rw [← (Prod.mk.inj h).2, hstage, hbuild, hstage]
    · cases (Prod.mk.inj h).1

/-- So the words behind the stage say what they said. -/
theorem load64_of_publish_error {fault : Fault} (hstart : signature.headerSize ≤ r.arenaStart.toNat)
    (h : r.publish v mode m = (.error fault, out)) {position : Nat}
    (hfrom : modeAt ≤ position) (hto : position + 8 ≤ signature.headerSize) :
    out.load64 position = m.load64 position :=
  Memory.load64_congr fun _ hi hi' =>
    get_of_publish_error hstart h (hfrom.trans hi) (hi'.trans_le hto)

/-- The header of a published value also says how many nodes were written. -/
theorem nodeCount_of_publish (h : r.publish v mode m = (.ok (), out)) {root : Nat} {w : Writer}
    (hbuild : r.build v mode (enter .building m) = (.ok root, w)) :
    nodeCount out = UInt64.ofNat w.nodes := by
  rw [publish] at h
  split at h
  · cases (Prod.mk.inj h).1
  · rw [hbuild] at h
    rw [← (Prod.mk.inj h).2, nodeCount, enter, Memory.load64_store32_of_disjoint _ _
      (.inr (by decide)), Memory.load64_store64_same]

/-- What two regions say of the value that was published in them is the same. -/
structure SameNodes (r : Region) (m m' : Memory) : Prop where
  get_eq : ∀ i, r.Covers i → m'.get i = m.get i
  root_eq : m'.load64 rootAt = m.load64 rootAt
  used_eq : used m' = used m
  nodeCount_eq : nodeCount m' = nodeCount m

/-- From the same bytes of an arena, a value leads to the same nodes in whichever mode. -/
theorem sameNodes_of_publish (hcoherent : v.Coherent)
    (hheader : signature.headerSize ≤ r.arenaStart.toNat) (hstart : r'.arenaStart = r.arenaStart)
    (hsame : ∀ i, r.Covers i → m'.get i = m.get i)
    (h : r.publish v mode m = (.ok (), out)) (h' : r'.publish v mode' m' = (.ok (), out')) :
    SameNodes r out out' := by
  obtain ⟨-, root, w, hbuild, hannounced⟩ := announced_of_publish h
  obtain ⟨-, root', w', hbuild', hannounced'⟩ := announced_of_publish h'
  have hnodes := nodeCount_of_publish h hbuild
  have hnodes' := nodeCount_of_publish h' hbuild'
  obtain ⟨-, hput₁⟩ := put_of_build hcoherent hbuild
  obtain ⟨hle, hput₂⟩ := put_of_build hcoherent hbuild'
  have hbehind : ∀ i, r.Covers i → signature.headerSize ≤ i := fun i hi => hheader.trans hi.1
  -- both begin with an empty arena of the same bytes
  have halike : Alike r.Covers ⟨enter .building m, 0, 0, ∅⟩ ⟨enter .building m', 0, 0, ∅⟩ := by
    refine ⟨rfl, rfl, rfl, fun i hi => ?_⟩
    have hstage : stateAt + 4 ≤ i := le_trans (by decide) (hbehind i hi)
    rw [get_enter _ _ (.inr hstage), get_enter _ _ (.inr hstage), hsame i hi]
  -- the second attempt succeeded, so there is room in it for what the first one wrote
  have hadmits : Arena.Admits (r'.site mode') (r.site mode) w :=
    ⟨congrArg UInt64.toNat hstart, fun _ => (Arena.cursor_of_put hcoherent hput₁).trans_le hle⟩
  obtain ⟨u, hu, halike⟩ := Arena.put_alike v halike hput₁ hadmits
  rw [hput₂] at hu
  obtain ⟨hroot, rfl⟩ := Prod.mk.inj hu
  refine ⟨?_, ?_, ?_, ?_⟩
  · intro i hi
    rw [hannounced.get_eq i (.inr (hbehind i hi)), hannounced'.get_eq i (.inr (hbehind i hi)),
      halike.get_eq i hi]
  · rw [hannounced.root_eq, hannounced'.root_eq, Except.ok.inj hroot]
  · rw [hannounced.used_eq, hannounced'.used_eq, halike.cursor_eq]
  · rw [hnodes, hnodes', halike.nodes_eq]

/-! ## A region made for a value -/

/-- Whoever makes a region is its maker, and it has an arena of the size asked for, rounded up. -/
theorem owner_of_create {name : String} {size : UInt64} {d d' : Directory}
    (h : create name size d = (.ok r, d')) :
    r.attachment.owner = true ∧ r.capacity.toNat = Arena.padded size.toNat := by
  obtain ⟨-, hgrants, rfl, -⟩ := create_eq_ok_iff.1 h
  exact ⟨rfl, toNat_freshCapacity hgrants.size_lt⟩

/-- Once the region is made, the value is published in it. -/
theorem ofValue_of_create (hcoherent : v.Coherent) (hsize : requiredSize v < UInt64.size)
    {name : String} {d d' : Directory}
    (h : create name (UInt64.ofNat (max (requiredSize v) Arena.headerSize)) d = (.ok r, d'))
    (mode : BuildMode) : ∃ d'', ofValue name v mode d = (.ok r, d'') := by
  obtain ⟨howner, hcapacity⟩ := owner_of_create h
  obtain ⟨-, hempty, -, -⟩ := eq_of_create h
  have hlt : max (requiredSize v) Arena.headerSize < UInt64.size := max_lt hsize (by decide)
  have hle : requiredSize v ≤ r.capacity.toNat := by
    have hroom := le_max_left (requiredSize v) Arena.headerSize
    rw [hcapacity, UInt64.toNat_ofNat_of_lt' hlt, Arena.padded]
    omega
  obtain ⟨root, w, hbuild, -⟩ := build_of_le hcoherent hle mode
    (enter .building (d'.memory r.attachment.object))
  have hanswer := publish_of_empty howner hempty v mode
  rw [hbuild] at hanswer
  have hrun : d'.run r.attachment.object (r.publish v mode) =
      (.ok (), d'.update r.attachment.object
        (r.publish v mode (d'.memory r.attachment.object)).2) := Prod.ext hanswer rfl
  rw [ofValue, checked_eq_ok_iff.2 ⟨hlt, rfl⟩]
  simp only [h, hrun]
  exact ⟨_, rfl⟩

/-! ## What measuring is worth -/

/-- What the measured size of a value says about writing it. -/
structure Foreseen (v : Value) : Prop where
  /-- A fresh writer, checked or not, has taken exactly the measured room when it is done. -/
  cursor_eq : ∀ (site : Site) (m : Memory) (root : Nat) (w : Writer),
    Writer.put site v ⟨m, 0, 0, ∅⟩ = (.ok root, w) → w.cursor = requiredSize v
  /-- An unchecked writer always comes to the end, a checked one exactly when there is that room. -/
  put_ok_iff : ∀ (site : Site) (m : Memory),
    (∃ root w, Writer.put site v ⟨m, 0, 0, ∅⟩ = (.ok root, w)) ↔
      (site.mode = .checked → requiredSize v ≤ site.capacity)
  /-- The maker of an empty region publishes the value exactly when the arena has that room. -/
  publish_ok_iff : ∀ (r : Region) (mode : BuildMode) (m : Memory), r.attachment.owner = true →
    m.load32 stateAt = RegionState.empty.code →
      ((r.publish v mode m).1 = .ok () ↔ requiredSize v ≤ r.capacity.toNat)
  /-- Otherwise the arena is exhausted. -/
  exhausted : ∀ (r : Region) (mode : BuildMode) (m : Memory), r.attachment.owner = true →
    m.load32 stateAt = RegionState.empty.code → r.capacity.toNat < requiredSize v →
      ∃ requested remaining, (r.publish v mode m).1 = .error (.arenaExhausted requested remaining)
  /-- What is in use of the arena then is what was measured. -/
  used_eq : ∀ (r : Region) (mode : BuildMode) (m out : Memory),
    r.publish v mode m = (.ok (), out) → used out = UInt64.ofNat (requiredSize v)
  /-- No byte outside the arena changes while it is built, be it in vain. -/
  build_inside : ∀ (r : Region) (mode : BuildMode) (m : Memory) (i : Nat), ¬r.Covers i →
    (r.build v mode m).2.memory.get i = m.get i
  /-- Publishing changes the header besides, and nothing else. -/
  publish_inside : ∀ (r : Region) (mode : BuildMode) (m : Memory) (i : Nat), ¬r.Covers i →
    i < stateAt ∨ signature.headerSize ≤ i → (r.publish v mode m).2.get i = m.get i
  /-- The size at the end never disagrees with the measured one. -/
  sizeAgrees : ∀ (r : Region) (mode : BuildMode) (m : Memory) (offset : Nat),
    (r.publish v mode m).1 ≠ .error (.arenaCorrupt offset .sizeDisagrees)
  /-- Published in whichever mode, the value has the same nodes. -/
  sameNodes : ∀ (r r' : Region) (mode mode' : BuildMode) (m m' out out' : Memory),
    signature.headerSize ≤ r.arenaStart.toNat → r'.arenaStart = r.arenaStart →
      (∀ i, r.Covers i → m'.get i = m.get i) → r.publish v mode m = (.ok (), out) →
        r'.publish v mode' m' = (.ok (), out') → SameNodes r out out'
  /-- When it cannot be published, no mode announces a root, or any room or nodes in use. -/
  announcesNothing : ∀ (r : Region) (mode : BuildMode) (m out : Memory) (fault : Fault),
    signature.headerSize ≤ r.arenaStart.toNat → r.publish v mode m = (.error fault, out) →
      out.load64 rootAt = m.load64 rootAt ∧ used out = used m ∧ nodeCount out = nodeCount m
  /-- A region that could be made for the value, whose size is a 64-bit number, holds it. -/
  ofValue_ok : ∀ (name : String) (mode : BuildMode) (d d' : Directory) (r : Region),
    requiredSize v < UInt64.size →
      create name (UInt64.ofNat (max (requiredSize v) Arena.headerSize)) d = (.ok r, d') →
        ∃ d'', ofValue name v mode d = (.ok r, d'')

/-- The measured size of a value is exactly the room that is written, however it shares its nodes
and under whichever kinds. -/
theorem foreseen_of_coherent {v : Value} (hcoherent : v.Coherent) : Foreseen v where
  cursor_eq _ _ _ _ hput := Arena.cursor_of_put hcoherent hput
  put_ok_iff _ _ := Arena.put_ok_iff hcoherent
  publish_ok_iff r mode m howner hempty := by
    rw [publish_of_empty howner hempty]
    constructor
    · intro hok
      cases hbuild : r.build v mode (enter .building m) with
      | mk answer w =>
        rw [hbuild] at hok
        cases answer with
        | ok root => exact (put_of_build hcoherent hbuild).1
        | error fault => cases hok
    · intro hle
      obtain ⟨root, w, hbuild, -⟩ := build_of_le hcoherent hle mode (enter .building m)
      rw [hbuild]
      rfl
  exhausted r mode m howner hempty hlt := by
    obtain ⟨requested, remaining, w, hbuild⟩ := build_of_lt hcoherent hlt mode (enter .building m)
    rw [publish_of_empty howner hempty, hbuild]
    exact ⟨requested, remaining, rfl⟩
  used_eq r mode m out h := by
    obtain ⟨-, root, w, hbuild, hannounced⟩ := announced_of_publish h
    obtain ⟨-, hput⟩ := put_of_build hcoherent hbuild
    rw [hannounced.used_eq, Arena.cursor_of_put hcoherent hput]
  build_inside _ _ _ _ hi := get_build_outside hcoherent hi _ _
  publish_inside _ _ _ _ hi hheader := get_publish_outside hcoherent hheader hi
  sizeAgrees r mode m offset := by
    by_cases hempty : r.attachment.owner = true ∧ m.load32 stateAt = RegionState.empty.code
    · rw [publish_of_empty hempty.1 hempty.2]
      intro hfailed
      -- either the arena is too small, and that is the fault, or there is none
      rcases Nat.lt_or_ge r.capacity.toNat (requiredSize v) with hlt | hle
      · obtain ⟨requested, remaining, w, hbuild⟩ :=
          build_of_lt hcoherent hlt mode (enter .building m)
        rw [hbuild] at hfailed
        cases hfailed
      · obtain ⟨root, w, hbuild, -⟩ := build_of_le hcoherent hle mode (enter .building m)
        rw [hbuild] at hfailed
        cases hfailed
    · rw [publish, if_pos (by
        rw [not_and_or, Bool.not_eq_true] at hempty
        simpa using hempty)]
      intro hfailed
      cases hfailed
  sameNodes _ _ _ _ _ _ _ _ hheader hstart hsame h h' :=
    sameNodes_of_publish hcoherent hheader hstart hsame h h'
  announcesNothing _ _ _ _ _ hstart h :=
    ⟨load64_of_publish_error hstart h (by decide) (by decide),
      load64_of_publish_error hstart h (by decide) (by decide),
      load64_of_publish_error hstart h (by decide) (by decide)⟩
  ofValue_ok _ mode _ _ _ hsize hcreate := ofValue_of_create hcoherent hsize hcreate mode

/-- The sample, which has one node under two kinds and one text three times, takes 80 bytes: a
region of that size holds it in both modes, and was told so beforehand. -/
theorem foreseen_of_coherent_sample : Session.sample.Coherent ∧ Foreseen Session.sample ∧
    requiredSize Session.sample = 80 ∧ ∃ r d', create "scene" 80 Directory.empty = (.ok r, d') ∧
      ∀ mode, (r.publish Session.sample mode (d'.memory r.attachment.object)).1 = .ok () := by
  have hcoherent : Session.sample.Coherent := by
    simp [Value.Coherent, Session.sample, Value.parts, Value.itemParts, Value.sameNode]
  have hsize : requiredSize Session.sample = 80 := by decide +kernel
  obtain ⟨r, d', -, hcreate, -⟩ := Session.exists_sample_run
  obtain ⟨howner, hcapacity⟩ := owner_of_create hcreate
  obtain ⟨-, hempty, -, -⟩ := eq_of_create hcreate
  have hforeseen := foreseen_of_coherent hcoherent
  refine ⟨hcoherent, hforeseen, hsize, r, d', hcreate, fun mode => ?_⟩
  rw [hforeseen.publish_ok_iff r mode _ howner hempty, hsize, hcapacity]
  decide

end Region

end SharedExchange
