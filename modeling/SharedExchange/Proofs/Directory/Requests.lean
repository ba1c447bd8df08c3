import SharedExchange.Holding
import SharedExchange.Proofs.Making

/-! # Requests

A party comes to a hold in one of two ways: it makes something under a name (`Plan.make`), or it
finds what somebody made (`Sought.find`). It asks for either directly or through a roster (`Call`).

Making takes several steps, and a later one may fail when earlier ones have left their traces: a
name is claimed before its object is sized, a link has two rings, and a value is written into a
region that exists by then. What an attempt leaves behind is told by two relations, one for each
way it can end: the directory is `Untouched`, or there is a new object under a new name (`Adds`).
Undoing a step goes from the second to the first (`Adds.release`).

Finding takes several steps, too: an object is held before its header is read, and a link has two
rings. To undo these steps is to let go of what somebody else made, and then the name has to stay
(`Directory.examine_snd`, `Duplex.connect_snd`).

So a request that fails leaves nothing behind (`untouched_of_refused`), whether it was refused or
broke off, and whatever it was that the system refused on the way. -/

namespace SharedExchange

open Arena (BuildMode)

namespace Directory

variable {d d' e : Directory} {a : Attachment} {name : String} {size : UInt64}

/-! ## What an attempt leaves behind -/

/-- The names lead where they led, and the objects made so far have the same contents. -/
structure Untouched (d d' : Directory) : Prop where
  names_eq : ∀ name : String, d'.names[name]? = d.names[name]?
  memory_eq : ∀ id < d.nextObject, d'.memory id = d.memory id
  nextObject_le : d.nextObject ≤ d'.nextObject

/-- Nothing done, nothing touched. -/
theorem Untouched.refl (d : Directory) : d.Untouched d :=
  ⟨fun _ => rfl, fun _ _ => rfl, Nat.le_refl _⟩

/-- A name that was not in use leads to a new object, which its maker holds. All other names and the
objects made before are as they were. -/
structure Adds (d : Directory) (a : Attachment) (d' : Directory) : Prop where
  owner_eq : a.owner = true
  name_ok : checkName a.name = .ok ()
  free : d.names[a.name]? = none
  names_eq : ∀ name : String,
    d'.names[name]? = if name = a.name then some (.object a.object) else d.names[name]?
  memory_eq : ∀ id < d.nextObject, d'.memory id = d.memory id
  le_object : d.nextObject ≤ a.object
  object_lt : a.object < d'.nextObject

/-- The new name leads to the new object. -/
theorem Adds.leads (h : d.Adds a d') : d'.names[a.name]? = some (.object a.object) := by
  rw [h.names_eq, if_pos rfl]

/-- A name that is claimed leads to a new object. -/
theorem adds_claim (hname : checkName name = .ok ()) (hfree : d.names[name]? = none) (size : Nat) :
    d.Adds ⟨d.nextObject, name, size, true⟩ (d.claim name).2 := by
  refine ⟨rfl, hname, hfree, fun other => ?_, fun id hid => ?_, Nat.le_refl _, Nat.lt_succ_self _⟩
  · simp only [claim, Std.TreeMap.getElem?_insert, Std.LawfulEqCmp.compare_eq_iff_eq]
    simp only [eq_comm]
  · have hne : d.nextObject ≠ id := (Nat.ne_of_lt hid).symm
    simp [memory, claim, Std.TreeMap.getD_insert, Std.LawfulEqCmp.compare_eq_iff_eq, hne]

/-- The new object may be given any contents. -/
theorem Adds.update (h : d.Adds a e) (m : Memory) : d.Adds a (e.update a.object m) := by
  refine ⟨h.owner_eq, h.name_ok, h.free, h.names_eq, fun id hid => ?_, h.le_object, h.object_lt⟩
  rw [memory_update_of_ne e m (Nat.ne_of_lt (hid.trans_le h.le_object)), h.memory_eq id hid]

/-- An attempt that left nothing behind takes nothing from what was made before it. -/
theorem Adds.of_untouched (h : d.Adds a e) (he : e.Untouched d') : d.Adds a d' := by
  refine ⟨h.owner_eq, h.name_ok, h.free, fun name => (he.names_eq name).trans (h.names_eq name),
    fun id hid => ?_, h.le_object, h.object_lt.trans_le he.nextObject_le⟩
  have hborn : id < e.nextObject := (hid.trans_le h.le_object).trans h.object_lt
  rw [he.memory_eq id hborn, h.memory_eq id hid]

/-- Only the name that is forgotten is out of use. -/
theorem getElem?_names_forget (d : Directory) (gone name : String) :
    (d.forget gone).names[name]? = if gone = name then none else d.names[name]? := by
  simp only [forget, Std.TreeMap.getElem?_erase, Std.LawfulEqCmp.compare_eq_iff_eq]

/-- To take the new name away is to undo the whole. -/
theorem Adds.forget (h : d.Adds a e) : d.Untouched (e.forget a.name) := by
  refine ⟨fun name => ?_, h.memory_eq, Nat.le_of_lt (h.le_object.trans_lt h.object_lt)⟩
  rw [getElem?_names_forget, h.names_eq]
  by_cases hname : name = a.name
  · rw [if_pos hname.symm, hname, h.free]
  · rw [if_neg (Ne.symm hname), if_neg hname]

/-- The maker's hold takes the new name away when it ends, and so undoes the whole. -/
theorem Adds.release (h : d.Adds a e) : d.Untouched (e.release a) := by
  rw [Directory.release, if_pos h.owner_eq, unlink]
  simp only [h.name_ok, h.leads]
  exact h.forget

/-- The names in use lead where they led, and names that come into use lead to new objects. -/
structure Grows (d d' : Directory) : Prop where
  names_eq : ∀ name : String, d'.names[name]? = d.names[name]? ∨
    d.names[name]? = none ∧ ∃ id, d.nextObject ≤ id ∧ d'.names[name]? = some (.object id)
  nextObject_le : d.nextObject ≤ d'.nextObject

/-- A directory that is untouched has grown by nothing. -/
theorem Untouched.grows (h : d.Untouched d') : d.Grows d' :=
  ⟨fun name => .inl (h.names_eq name), h.nextObject_le⟩

/-- A directory with a new object has grown. -/
theorem Adds.grows (h : d.Adds a d') : d.Grows d' := by
  refine ⟨fun name => ?_, Nat.le_of_lt (h.le_object.trans_lt h.object_lt)⟩
  by_cases hname : name = a.name
  · subst hname
    exact .inr ⟨h.free, a.object, h.le_object, h.leads⟩
  · exact .inl (by rw [h.names_eq, if_neg hname])

/-- To grow twice is to grow. -/
theorem Grows.trans (h : d.Grows e) (h' : e.Grows d') : d.Grows d' := by
  refine ⟨fun name => ?_, h.nextObject_le.trans h'.nextObject_le⟩
  rcases h'.names_eq name with hsame | ⟨hunused, id, hid, hleads⟩
  · rw [hsame]
    exact h.names_eq name
  · rcases h.names_eq name with hsame | ⟨-, _, -, hused⟩
    · exact .inr ⟨hsame ▸ hunused, id, h.nextObject_le.trans hid, hleads⟩
    · rw [hunused] at hused
      cases hused

/-- A name that leads to an object goes on doing so while the directory grows. -/
theorem Grows.leads (h : d.Grows d') {id : ObjectId} (hleads : d.names[name]? = some (.object id)) :
    d'.names[name]? = some (.object id) := by
  rcases h.names_eq name with hsame | ⟨hunused, -⟩
  · rw [hsame, hleads]
  · rw [hleads] at hunused
    cases hunused

/-- A maker's hold whose name leads to the object that is held. -/
structure Owns (d : Directory) (a : Attachment) : Prop where
  owner_eq : a.owner = true
  name_ok : checkName a.name = .ok ()
  leads : d.names[a.name]? = some (.object a.object)
  object_lt : a.object < d.nextObject

/-- The maker of an object has its name, too. -/
theorem Adds.owns (h : d.Adds a d') : d'.Owns a := ⟨h.owner_eq, h.name_ok, h.leads, h.object_lt⟩

/-- A maker keeps the name while the directory grows. -/
theorem Owns.of_grows (h : d.Owns a) (hgrows : d.Grows d') : d'.Owns a :=
  ⟨h.owner_eq, h.name_ok, hgrows.leads h.leads, h.object_lt.trans_le hgrows.nextObject_le⟩

/-- How an attempt to make or find something ends: well, or without a trace. -/
inductive Outcome {ε α : Type} (d : Directory) (well : α → Directory → Prop) :
    Except ε α × Directory → Prop where
  | refused (failure : ε) {d' : Directory} (h : d.Untouched d') :
    Outcome d well (.error failure, d')
  | done (r : α) {d' : Directory} (h : well r d') : Outcome d well (.ok r, d')

namespace Outcome

variable {ε α β : Type} {well : α → Directory → Prop} {result : Except ε α × Directory}

/-- An attempt that fails leaves nothing behind. -/
theorem untouched (h : d.Outcome well result) {failure : ε}
    (hrefused : result = (.error failure, d')) : d.Untouched d' := by
  subst hrefused
  cases h with
  | refused _ h => exact h

/-- An attempt that succeeds ends well. -/
theorem of_made (h : d.Outcome well result) {r : α} (hmade : result = (.ok r, d')) :
    well r d' := by
  subst hmade
  cases h with
  | done _ h => exact h

/-- What is made may be handed out in another form. -/
theorem map {well' : β → Directory → Prop} {f : α → β} (h : d.Outcome well result)
    (hwell : ∀ r d', well r d' → well' (f r) d') :
    d.Outcome well' (Prod.map (Except.map f) id result) := by
  cases h with
  | refused failure h => exact .refused failure h
  | done r h => exact .done (f r) (hwell _ _ h)

/-- And a failure may be told in another form. -/
theorem mapError {ε' : Type} {f : ε → ε'} (h : d.Outcome well result) :
    d.Outcome well (Prod.map (Except.mapError f) id result) := by
  cases h with
  | refused failure h => exact .refused (f failure) h
  | done r h => exact .done r h

end Outcome

/-! ## Making one object -/

/-- An object is made, or its name is given back. -/
theorem create_outcome (d : Directory) (name : String) (size : UInt64) :
    d.Outcome d.Adds (d.create name size) := by
  rw [create]
  split
  · exact .refused _ (.refl d)
  split
  · exact .refused _ (.refl d)
  next hclaim =>
  obtain ⟨hname, -, hfree⟩ := checkClaim_eq_ok_iff.1 hclaim
  have hclaimed :=
    adds_claim hname (Std.TreeMap.getElem?_eq_none_of_contains_eq_false hfree) size.toNat
  -- from here on there is a name to give back
  simp only
  split
  · exact .refused _ hclaimed.forget
  split
  · exact .refused _ (hclaimed.update _).forget
  · exact .done _ (hclaimed.update _)

/-- A structure is laid over a new object, and its handle holds that. -/
theorem lay_outcome {α : Type} {handle : Attachment → α} {attachment : α → Attachment}
    (hhandle : ∀ a, attachment (handle a) = a) (whole : Nat) (format : Memory → Memory) :
    d.Outcome (fun r => d.Adds (attachment r)) (d.lay name whole handle format) := by
  rw [lay]
  split
  · exact .refused _ (.refl d)
  next size _ =>
  have houtcome := d.create_outcome name (UInt64.ofNat size)
  split
  · next hrefused => exact .refused _ (houtcome.untouched hrefused)
  · next a e hmade =>
    have hadds := (houtcome.of_made hmade).update (format (e.memory a.object))
    exact .done (handle a) (by rwa [hhandle])

end Directory

/-- A ring is a new object. -/
theorem Ring.create_outcome (name : String) (capacity : UInt64) (patience : Patience)
    (d : Directory) :
    d.Outcome (fun r => d.Adds r.attachment) (create name capacity patience d) := by
  rw [create]
  split
  · exact Directory.lay_outcome (fun _ => rfl) _ _
  · exact .refused _ (.refl d)

/-- A pool is a new object. -/
theorem Pool.create_outcome (name : String) (size : UInt64) (d : Directory) :
    d.Outcome (fun p => d.Adds p.attachment) (create name size d) := by
  rw [create]
  split
  · exact .refused _ (.refl d)
  · exact Directory.lay_outcome (fun _ => rfl) _ _

/-- A cell is a new object. -/
theorem LatestRecord.create_outcome (name : String) (type : RecordType) (first : List UInt8)
    (d : Directory) : d.Outcome (fun c => d.Adds c.attachment) (create name type first d) :=
  Directory.lay_outcome (fun _ => rfl) _ _

namespace Region

/-- A region is a new object. -/
theorem create_outcome (name : String) (size : UInt64) (d : Directory) :
    d.Outcome (fun r => d.Adds r.attachment) (create name size d) := by
  rw [create]
  split
  · exact .refused _ (.refl d)
  · exact Directory.lay_outcome (fun _ => rfl) _ _

/-- The maker's hold goes with its name, so nothing is left of a region that is given up at once. -/
theorem untouched_release {r : Region} {d e : Directory} (h : d.Adds r.attachment e) :
    d.Untouched (r.release e) := by
  rw [release, if_pos h.owner_eq]
  exact (h.update _).release

/-- A region with a value in it is a new object, and one whose value was not published is none. -/
theorem ofValue_outcome (name : String) (v : Value) (mode : BuildMode) (d : Directory) :
    d.Outcome (fun r => d.Adds r.attachment) (ofValue name v mode d) := by
  rw [ofValue]
  split
  · exact .refused _ (.refl d)
  next size _ =>
  have houtcome := create_outcome name (UInt64.ofNat size) d
  split
  · next hrefused => exact .refused _ (houtcome.untouched hrefused)
  · next r e hmade =>
    -- publishing changes the new object alone, whether it goes well or not
    have hadds := (houtcome.of_made hmade).update
      (r.publish v mode (e.memory r.attachment.object)).2
    simp only [Directory.run]
    split
    · next hfailed =>
      obtain ⟨-, rfl⟩ := Prod.mk.inj hfailed
      exact .refused _ (untouched_release hadds)
    · next hpublished =>
      obtain ⟨-, rfl⟩ := Prod.mk.inj hpublished
      exact .done r hadds

end Region

/-- Both rings of a link are made, or none. -/
theorem Duplex.create_outcome (name : String) (capacity : UInt64) (patience : Patience)
    (d : Directory) :
    d.Outcome (fun link d' => ∃ e, d.Adds link.outgoing.attachment e ∧
      e.Adds link.incoming.attachment d') (create name capacity patience d) := by
  have houtgoing := Ring.create_outcome (forwardName name) capacity patience d
  rw [create]
  split
  · next hrefused => exact .refused _ (houtgoing.untouched hrefused)
  · next outgoing e hmade =>
    have hadds := houtgoing.of_made hmade
    have hincoming := Ring.create_outcome (backwardName name) capacity patience e
    split
    · next hrefused =>
      -- the second ring left nothing behind, and the first one is given up
      exact .refused _ (hadds.of_untouched (hincoming.untouched hrefused)).release
    · next incoming d' hmade' =>
      have hboth := hincoming.of_made hmade'
      exact .done _ ⟨e, hadds, hboth⟩

/-! ## Finding a link -/

namespace Duplex

variable {d d' : Directory} {name : String} {link : Duplex}

/-- Nobody who looks for a link changes anything: the rings were made by somebody else, so letting
go of one takes no name away. -/
theorem connect_snd (name : String) (d : Directory) : (connect name d).2 = d := by
  have hforward : (Ring.attach (forwardName name) .standard d).2 = d := d.examine_snd _ _
  have hbackward : (Ring.attach (backwardName name) .standard d).2 = d := d.examine_snd _ _
  rw [connect]
  split
  · next hrefused =>
    rw [hrefused] at hforward
    exact hforward
  · next incoming e hincoming =>
    rw [hincoming] at hforward
    obtain rfl : e = d := hforward
    obtain ⟨⟨a, hfound, rfl⟩, -⟩ := Ring.attach_eq_ok_iff.1 hincoming
    split
    · next hrefused =>
      rw [hrefused] at hbackward
      obtain rfl := hbackward
      exact Directory.release_of_peer _ hfound.owner_eq
    · next houtgoing =>
      rw [houtgoing] at hbackward
      exact hbackward

/-- A link is found when both its rings are. -/
theorem connect_eq_ok_iff : connect name d = (.ok link, d') ↔
    Ring.attach (forwardName name) .standard d = (.ok link.incoming, d) ∧
      Ring.attach (backwardName name) .standard d = (.ok link.outgoing, d) ∧ d' = d := by
  constructor
  · intro h
    obtain rfl : d' = d := by rw [← connect_snd name d, h]
    rw [connect] at h
    split at h
    · cases h
    next incoming e hincoming =>
    obtain rfl := (Ring.attach_eq_ok_iff.1 hincoming).2
    split at h
    · cases h
    next outgoing e houtgoing =>
    obtain ⟨hlink, rfl⟩ := Prod.mk.inj h
    obtain rfl := Except.ok.inj hlink
    exact ⟨hincoming, houtgoing, rfl⟩
  · rintro ⟨hincoming, houtgoing, rfl⟩
    rw [connect, hincoming]
    dsimp only
    rw [houtgoing]

end Duplex

/-! ## Requests of any kind -/

/-- What can be made under a name. -/
inductive Plan where
  | object (size : UInt64)
  | ring (capacity : UInt64) (patience : Patience)
  | link (capacity : UInt64) (patience : Patience)
  | pool (size : UInt64)
  | record (type : RecordType) (first : List UInt8)
  | region (size : UInt64)
  /-- A region with a value in it. -/
  | value (v : Value) (mode : BuildMode)

/-- Make something under a name. -/
def Plan.make (plan : Plan) (name : String) (d : Directory) :
    Except Failure Holding × Directory :=
  match plan with
  | object size =>
    Prod.map (.map .object) id (Prod.map (.mapError .refused) id (d.create name size))
  | ring capacity patience => Prod.map (.map .ring) id (Ring.create name capacity patience d)
  | link capacity patience => Prod.map (.map .link) id (Duplex.create name capacity patience d)
  | pool size => Prod.map (.map .pool) id (Pool.create name size d)
  | record type first => Prod.map (.map .record) id (LatestRecord.create name type first d)
  | region size => Prod.map (.map .region) id (Region.create name size d)
  | value v mode => Prod.map (.map .region) id (Region.ofValue name v mode d)

/-- What can be looked for under a name. -/
inductive Sought where
  | object
  | ring (patience : Patience)
  | link
  | pool
  | record (type : RecordType)
  | region

/-- Find under a name what somebody made. -/
def Sought.find (sought : Sought) (name : String) (d : Directory) :
    Except Failure Holding × Directory :=
  match sought with
  | object => (((d.attach name).mapError .refused).map .object, d)
  | ring patience => Prod.map (.map .ring) id (Ring.attach name patience d)
  | link => Prod.map (.map .link) id (Duplex.connect name d)
  | pool => Prod.map (.map .pool) id (Pool.attach name d)
  | record type => Prod.map (.map .record) id (LatestRecord.attach name type d)
  | region => Prod.map (.map .region) id (Region.attach name d)

/-- The holds behind a handle. -/
def Holding.attachments : Holding → List Attachment
  | object a => [a]
  | ring r => [r.attachment]
  | link l => [l.outgoing.attachment, l.incoming.attachment]
  | pool p => [p.attachment]
  | record c => [c.attachment]
  | region r => [r.attachment]
  | roster r =>
    r.rings.toList.map (fun entry => entry.2.attachment) ++
      r.pools.toList.map (fun entry => entry.2.attachment)
  | foreignRing r => r.toList.map (·.attachment)
  | foreignPool p => p.toList.map (·.attachment)

namespace Plan

/-- What is made is new and belongs to its maker. What cannot be made leaves nothing behind. -/
theorem make_outcome (plan : Plan) (name : String) (d : Directory) :
    d.Outcome (fun h d' => d.Grows d' ∧ ∀ a ∈ h.attachments, d'.Owns a) (plan.make name d) := by
  have hone : ∀ {a : Attachment} {d' : Directory}, d.Adds a d' →
      d.Grows d' ∧ ∀ b ∈ [a], d'.Owns b := fun h =>
    ⟨h.grows, fun b hb => List.mem_singleton.1 hb ▸ h.owns⟩
  cases plan with
  | object size => exact (d.create_outcome name size).mapError.map fun _ _ => hone
  | ring capacity patience =>
    exact (Ring.create_outcome name capacity patience d).map fun _ _ => hone
  | link capacity patience =>
    refine (Duplex.create_outcome name capacity patience d).map fun link d' => ?_
    rintro ⟨e, houtgoing, hincoming⟩
    refine ⟨houtgoing.grows.trans hincoming.grows, fun a ha => ?_⟩
    rcases List.mem_pair.1 ha with rfl | rfl
    · exact houtgoing.owns.of_grows hincoming.grows
    · exact hincoming.owns
  | pool size => exact (Pool.create_outcome name size d).map fun _ _ => hone
  | record type first => exact (LatestRecord.create_outcome name type first d).map fun _ _ => hone
  | region size => exact (Region.create_outcome name size d).map fun _ _ => hone
  | value v mode => exact (Region.ofValue_outcome name v mode d).map fun _ _ => hone

end Plan

/-- Nobody who looks for something changes anything. -/
theorem Sought.find_snd (sought : Sought) (name : String) (d : Directory) :
    (sought.find name d).2 = d := by
  cases sought with
  | object => rfl
  | ring patience => exact d.examine_snd name (Ring.ofHeader patience)
  | link => exact Duplex.connect_snd name d
  | pool => exact d.examine_snd name Pool.ofHeader
  | record type => exact d.examine_snd name (LatestRecord.ofHeader type)
  | region => exact d.examine_snd name Region.ofHeader

/-- A request, made directly or through a roster. -/
inductive Call where
  | make (name : String) (plan : Plan)
  | find (name : String) (sought : Sought)
  | createRing (name : String) (capacity : UInt64) (patience : Patience)
  | attachRing (name : String)
  | createPool (name : String) (size : UInt64)
  | attachPool (name : String)

/-- Answer a request of a party with a roster. -/
def Call.serve (call : Call) (roster : Roster) (d : Directory) :
    Except Failure Holding × Roster × Directory :=
  match call with
  | make name plan =>
    let (answer, d) := plan.make name d
    (answer, roster, d)
  | find name sought =>
    let (answer, d) := sought.find name d
    (answer, roster, d)
  | createRing name capacity patience =>
    let (answer, roster, d) := roster.createRing name capacity patience d
    (answer.map .ring, roster, d)
  | attachRing name =>
    let (answer, roster, d) := roster.attachRing name d
    (answer.map .ring, roster, d)
  | createPool name size =>
    let (answer, roster, d) := roster.createPool name size d
    (answer.map .pool, roster, d)
  | attachPool name =>
    let (answer, roster, d) := roster.attachPool name d
    (answer.map .pool, roster, d)

section

variable {α : Type} {table table' : Std.TreeMap String α}

/-- What a roster does not get, it does not keep: when the attempt leaves no trace in the directory,
it leaves none in the table. -/
theorem Roster.keep_untouched {name : String} {make : Directory → Except Failure α × Directory}
    {well : α → Directory → Prop} {d d' : Directory} {failure : Failure}
    (hmake : d.Outcome well (make d))
    (h : keep table name make d = (.error failure, table', d')) :
    table' = table ∧ d.Untouched d' := by
  rw [keep] at h
  split at h
  · cases h
    exact ⟨rfl, .refl d⟩
  split at h
  · next hrefused =>
    cases h
    exact ⟨rfl, hmake.untouched hrefused⟩
  · cases h

end

/-- To look for something leaves no trace, whether it is found or not. -/
theorem Directory.examine_outcome {α : Type} (d : Directory) (name : String)
    (read : Attachment → Memory → Except Failure α) :
    d.Outcome (fun _ d' => d' = d) (d.examine name read) := by
  have hsame := d.examine_snd name read
  generalize d.examine name read = result at hsame
  obtain ⟨answer, d'⟩ := result
  obtain rfl : d' = d := hsame
  cases answer with
  | error failure => exact .refused failure (.refl d')
  | ok found => exact .done found rfl

/-- A request that fails leaves nothing behind: the roster is the same, every name leads where it
led, and the objects have the same contents. -/
theorem untouched_of_refused (call : Call) {roster roster' : Roster} {d d' : Directory}
    {failure : Failure} (h : call.serve roster d = (.error failure, roster', d')) :
    roster' = roster ∧ d.Untouched d' := by
  -- one case for each call; a registry keeps its tables when what it asks for is refused
  cases call with
  | make name plan =>
    obtain ⟨hrefused, hrest⟩ := Prod.mk.inj h
    obtain ⟨rfl, rfl⟩ := Prod.mk.inj hrest
    exact ⟨rfl, (plan.make_outcome name d).untouched (Prod.ext hrefused rfl)⟩
  | find name sought =>
    obtain ⟨-, hrest⟩ := Prod.mk.inj h
    obtain ⟨rfl, hd⟩ := Prod.mk.inj hrest
    obtain rfl : d' = d := hd.symm.trans (sought.find_snd name d)
    exact ⟨rfl, .refl d'⟩
  | createRing name capacity patience =>
    obtain ⟨hrefused, hrest⟩ := Prod.mk.inj h
    obtain ⟨rfl, rfl⟩ := Prod.mk.inj hrest
    obtain ⟨hrings, hd⟩ := Roster.keep_untouched (Ring.create_outcome name capacity patience d)
      (Prod.ext (map_eq_error_iff.1 hrefused) rfl)
    exact ⟨congrArg (Roster.mk · roster.pools) hrings, hd⟩
  | attachRing name =>
    obtain ⟨hrefused, hrest⟩ := Prod.mk.inj h
    obtain ⟨rfl, rfl⟩ := Prod.mk.inj hrest
    obtain ⟨hrings, hd⟩ := Roster.keep_untouched
      (d.examine_outcome name (Ring.ofHeader .standard))
      (Prod.ext (map_eq_error_iff.1 hrefused) rfl)
    exact ⟨congrArg (Roster.mk · roster.pools) hrings, hd⟩
  | createPool name size =>
    obtain ⟨hrefused, hrest⟩ := Prod.mk.inj h
    obtain ⟨rfl, rfl⟩ := Prod.mk.inj hrest
    obtain ⟨hpools, hd⟩ := Roster.keep_untouched (Pool.create_outcome name size d)
      (Prod.ext (map_eq_error_iff.1 hrefused) rfl)
    exact ⟨congrArg (Roster.mk roster.rings ·) hpools, hd⟩
  | attachPool name =>
    obtain ⟨hrefused, hrest⟩ := Prod.mk.inj h
    obtain ⟨rfl, rfl⟩ := Prod.mk.inj hrest
    obtain ⟨hpools, hd⟩ := Roster.keep_untouched
      (d.examine_outcome name Pool.ofHeader) (Prod.ext (map_eq_error_iff.1 hrefused) rfl)
    exact ⟨congrArg (Roster.mk roster.rings ·) hpools, hd⟩

/-- Three requests that fail midway. The second ring of a link is not given a size; the object that
is held is no region; and the second name of a link leads nowhere, when its first ring is held. -/
theorem untouched_of_refused_midway :
    let noSpace : OsCause := .other "No space left on device (os error 28)"
    let scarce : Directory := { Directory.empty with
      objection := fun name call =>
        if name = "pair.b2a" ∧ call = .resize 1408 then some noSpace else none }
    let strewn := Directory.empty.place "scene" (Memory.zeros 64)
    let halved := (Ring.create "pair.a2b" 4 .standard Directory.empty).2
    let made := (Call.make "pair" (.link 4 .standard)).serve .empty scarce
    let seen := (Call.find "scene" .region).serve .empty strewn
    let joined := (Call.find "pair" .link).serve .empty halved
    (made.1 = .error (.refused (.sizingRefused noSpace)) ∧
      (Ring.create "pair.a2b" 4 .standard scarce).1.isOk = true ∧
      made.2.1 = .empty ∧ scarce.Untouched made.2.2 ∧ made.2.2.names["pair.a2b"]? = none) ∧
    (seen.1 = .error (.refused (.wrongMagic 0x5256414c 0)) ∧
      (strewn.attach "scene").isOk = true ∧
      seen.2.1 = .empty ∧ strewn.Untouched seen.2.2 ∧
      seen.2.2.names["scene"]? = some (.object 0)) ∧
    (joined.1 = .error (.refused (.nameUnknown "pair.b2a")) ∧
      (Ring.attach "pair.a2b" .standard halved).1.isOk = true ∧
      joined.2.1 = .empty ∧ halved.Untouched joined.2.2 ∧
      joined.2.2.names["pair.a2b"]? = some (.object 0)) := by
  intro noSpace scarce strewn halved made seen joined
  have hmade : made.1 = .error (.refused (.sizingRefused noSpace)) :=
    map_eq_error_iff (f := fun _ => ()).1 (by decide +kernel)
  have hseen : seen.1 = .error (.refused (.wrongMagic 0x5256414c 0)) :=
    map_eq_error_iff (f := fun _ => ()).1 (by decide +kernel)
  have hjoined : joined.1 = .error (.refused (.nameUnknown "pair.b2a")) :=
    map_eq_error_iff (f := fun _ => ()).1 (by decide +kernel)
  have hhalf : (Ring.attach "pair.a2b" .standard halved).1.isOk = true := by decide +kernel
  have hleads : halved.names["pair.a2b"]? = some (.object 0) := by decide +kernel
  clear_value halved
  have huntouched : ∀ (call : Call) (d : Directory) (failure : Failure),
      (call.serve .empty d).1 = .error failure →
        (call.serve .empty d).2.1 = .empty ∧ d.Untouched (call.serve .empty d).2.2 :=
    fun call d failure hfailed => untouched_of_refused call (Prod.ext hfailed rfl)
  obtain ⟨hroster, hd⟩ := huntouched _ _ _ hmade
  obtain ⟨hroster', hd'⟩ := huntouched _ _ _ hseen
  obtain ⟨hroster'', hd''⟩ := huntouched _ _ _ hjoined
  exact ⟨⟨hmade, by decide +kernel, hroster, hd, hd.names_eq _⟩,
    ⟨hseen, by decide +kernel, hroster', hd', hd'.names_eq _⟩,
    ⟨hjoined, hhalf, hroster'', hd'', (hd''.names_eq _).trans hleads⟩⟩

end SharedExchange
