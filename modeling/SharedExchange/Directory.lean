import Std.Data.TreeMap
import SharedExchange.Fault
import SharedExchange.Bytes.Memory
import SharedExchange.Text.Utf8

/-! # Named shared objects

A `Directory` is what all parties share: a table of names, each leading to an object or to a
folder, and the contents of every object ever made. An `Attachment` is one party's hold on one
object. It refers to the object and not to the name, so it keeps working after the name is gone.

* `create` claims a name, sizes the object and maps it; when a later stage is refused the name is
  given back.
* `attach` finds an existing object by name.
* `unlink` removes a name. `release` ends a hold; the creator's hold also removes the name, whatever
  object the name leads to by then.
* `lay` and `examine` are how every structure is made and found: it is laid over a new object, or
  read off the header of an object that is there. Whoever finds no such structure lets go of the
  object.

The operating system may refuse any of the calls by which objects are made and found, for reasons of
its own. What it has against a call is part of the directory (`objection`), so what is shown for
every directory is shown for whatever the system refuses. A refused call does nothing. -/

namespace SharedExchange

/-- Objects are told apart by a number, given in the order of their making. -/
abbrev ObjectId := Nat

/-- What a name leads to. -/
inductive Entry where
  | object (id : ObjectId)
  | folder
deriving DecidableEq

/-- What the operating system is asked for about a name. -/
inductive SystemCall where
  /-- Make an object under the name. -/
  | create
  /-- Give the new object a size. -/
  | resize (size : Nat)
  /-- Find the object that the name leads to. -/
  | find
  /-- Tell its size. -/
  | measure
  /-- Map so many bytes of an object. -/
  | map (size : Nat)
deriving DecidableEq

/-- The names in use, the contents of all objects, and the temper of the system. -/
structure Directory where
  names : Std.TreeMap String Entry
  objects : Std.TreeMap ObjectId Memory
  /-- The number of the next object. -/
  nextObject : ObjectId
  /-- Why the system refuses a call about a name, if it does. -/
  objection : String → SystemCall → Option OsCause

/-- One party's hold on an object. -/
structure Attachment where
  object : ObjectId
  /-- The name under which the object was made or found. -/
  name : String
  size : Nat
  /-- Whether this is the hold of the party that made the object. -/
  owner : Bool

namespace Directory

/-- No names and no objects, under a system that does whatever it is asked. -/
def empty : Directory := ⟨∅, ∅, 0, fun _ _ => none⟩

instance : Inhabited Directory := ⟨empty⟩

/-- The contents of an object. -/
def memory (d : Directory) (id : ObjectId) : Memory := d.objects.getD id default

/-- Replace the contents of an object. -/
def update (d : Directory) (id : ObjectId) (m : Memory) : Directory :=
  { d with objects := d.objects.insert id m }

/-- An object has the contents that it was given last. -/
@[simp] theorem memory_update_same (d : Directory) (id : ObjectId) (m : Memory) :
    (d.update id m).memory id = m := by
  simp [memory, update]

/-- The other objects keep their contents. -/
theorem memory_update_of_ne (d : Directory) {id other : ObjectId} (m : Memory) (h : other ≠ id) :
    (d.update id m).memory other = d.memory other := by
  simp [memory, update, Std.TreeMap.getD_insert, Std.LawfulEqCmp.compare_eq_iff_eq, h.symm]

/-- What is in an object does not matter to its name. -/
@[simp] theorem names_update (d : Directory) (id : ObjectId) (m : Memory) :
    (d.update id m).names = d.names := rfl

/-- Run an operation on the contents of one object. -/
def run {α : Type} (d : Directory) (id : ObjectId) (operation : Memory → α × Memory) :
    α × Directory :=
  let (answer, m) := operation (d.memory id)
  (answer, d.update id m)

/-- Run an operation that also updates the handle it is called through. -/
def runWith {α σ : Type} (d : Directory) (id : ObjectId) (operation : Memory → α × σ × Memory) :
    α × σ × Directory :=
  let (answer, handle, m) := operation (d.memory id)
  (answer, handle, d.update id m)

/-- The names in use, in order. -/
def listing (d : Directory) : List String := d.names.keys

/-- The longest name, in bytes. -/
def nameLimit : Nat := 246

/-- The largest size a file can have. -/
def fileLimit : Nat := 0x7fffffffffffffff

/-- The largest object that fits into an address space. -/
def mappingLimit : Nat := 0x7ffffffff000

/-- A name is not empty, has no slash and no NUL, and is at most `nameLimit` bytes long. -/
def checkName (name : String) : Except Fault Unit :=
  let characters := name.toList
  if characters.isEmpty || characters.contains '/' then .error (.nameMalformed name)
  else if nameLimit < Utf8.size name then .error (.nameTooLong nameLimit (Utf8.size name))
  else if characters.contains '\x00' then .error (.nameMalformed name)
  else .ok ()

/-- Ask the system for something, with the fault that comes of an objection. -/
def ask (d : Directory) (name : String) (call : SystemCall) (fault : OsCause → Fault) :
    Except Fault Unit :=
  match d.objection name call with
  | some cause => .error (fault cause)
  | none => .ok ()

/-- The system does what it has nothing against. -/
theorem ask_eq_ok_iff {d : Directory} {name : String} {call : SystemCall}
    {fault : OsCause → Fault} {u : Unit} :
    d.ask name call fault = .ok u ↔ d.objection name call = none := by
  rw [ask]
  cases d.objection name call <;> simp

/-- The system does whatever it is asked about a name. -/
def Willing (d : Directory) (name : String) : Prop := ∀ call, d.objection name call = none

/-- A name for a new object. -/
def checkClaim (d : Directory) (name : String) : Except Fault Unit := do
  checkName name
  d.ask name .create (.creationRefused name)
  if d.names.contains name then throw (.nameTaken name)

/-- Give a new object its size. No file is larger than the limit. -/
def checkSizing (d : Directory) (name : String) (size : Nat) : Except Fault Unit := do
  d.ask name (.resize size) .sizingRefused
  if fileLimit < size then throw (.sizingRefused .invalidArgument)

/-- Map an object of `size` bytes. No mapping is larger than the limit. -/
def checkMapping (d : Directory) (name : String) (size : Nat) : Except Fault Unit := do
  d.ask name (.map size) .mappingRefused
  if mappingLimit < size then throw (.mappingRefused .outOfMemory)

/-- Give a new, still empty object to a name. -/
def claim (d : Directory) (name : String) : ObjectId × Directory :=
  (d.nextObject,
    { d with
      names := d.names.insert name (.object d.nextObject)
      objects := d.objects.insert d.nextObject (Memory.zeros 0)
      nextObject := d.nextObject + 1 })

/-- A name that was claimed leads to the new object. -/
@[simp] theorem getElem?_names_claim (d : Directory) (name : String) :
    (d.claim name).2.names[name]? = some (.object d.nextObject) := by
  simp [claim]

/-- Take a name out of the table. -/
def forget (d : Directory) (name : String) : Directory := { d with names := d.names.erase name }

/-- Make an object of `size` zero bytes under a name that is not in use. -/
def create (d : Directory) (name : String) (size : UInt64) : Except Fault Attachment × Directory :=
  if size = 0 then (.error (.sizeUnusable 0 .emptyObject), d) else
  match d.checkClaim name with
  | .error fault => (.error fault, d)
  | .ok () =>
    let (id, claimed) := d.claim name
    match d.checkSizing name size.toNat with
    | .error fault => (.error fault, claimed.forget name)
    | .ok () =>
      let sized := claimed.update id (Memory.zeros size.toNat)
      match d.checkMapping name size.toNat with
      | .error fault => (.error fault, sized.forget name)
      | .ok () => (.ok ⟨id, name, size.toNat, true⟩, sized)

/-- Hold an object that somebody else made. -/
def attach (d : Directory) (name : String) : Except Fault Attachment := do
  checkName name
  d.ask name .find (.openingRefused name)
  match d.names[name]? with
  | none => throw (.nameUnknown name)
  | some .folder => throw (.openingRefused name .isDirectory)
  | some (.object id) =>
    d.ask name .measure (.openingRefused name)
    let size := (d.memory id).size
    if size = 0 then throw (.sizeUnusable 0 .unsizedObject)
    d.checkMapping name size
    return ⟨id, name, size, false⟩

/-- Remove a name; the answer says whether there was one. -/
def unlink (d : Directory) (name : String) : Except Fault Bool × Directory :=
  match checkName name with
  | .error fault => (.error fault, d)
  | .ok () =>
    match d.names[name]? with
    | none => (.ok false, d)
    | some .folder => (.error (.openingRefused name .isDirectory), d)
    | some (.object _) => (.ok true, d.forget name)

/-- End a hold. The maker's hold takes the name with it, wherever the name leads by then; a folder
in its place stays. -/
def release (d : Directory) (a : Attachment) : Directory :=
  if a.owner then (d.unlink a.name).2 else d

/-- An object outlives its name. -/
theorem memory_release (d : Directory) (a : Attachment) (id : ObjectId) :
    (d.release a).memory id = d.memory id := by
  rw [release, unlink]
  repeat' split
  all_goals rfl

/-! ## Structures in objects -/

/-- Make an object of `whole` bytes and lay a structure over it. So many bytes that no word counts
them cannot even be asked for. -/
def lay {α : Type} (d : Directory) (name : String) (whole : Nat) (handle : Attachment → α)
    (format : Memory → Memory) : Except Failure α × Directory :=
  match checked whole with
  | .error failure => (.error failure, d)
  | .ok size =>
    match d.create name (UInt64.ofNat size) with
    | (.error fault, d) => (.error (.refused fault), d)
    | (.ok a, d) => (.ok (handle a), d.update a.object (format (d.memory a.object)))

/-- Hold the object under a name and read a handle off its header. When there is none to be read,
the hold ends. -/
def examine {α : Type} (d : Directory) (name : String)
    (read : Attachment → Memory → Except Failure α) : Except Failure α × Directory :=
  match d.attach name with
  | .error fault => (.error (.refused fault), d)
  | .ok a =>
    match read a (d.memory a.object) with
    | .error failure => (.error failure, d.release a)
    | .ok handle => (.ok handle, d)

/-! ## Bytes by name -/

/-- Some bytes of the object under a name, as a peer sees it; nothing when it has not so many. -/
def look (d : Directory) (name : String) (start count : Nat) :
    Except Fault (Option (List UInt8)) := do
  let a ← d.attach name
  if a.size < start + count then return none
  return some ((d.memory a.object).slice start count)

/-- Overwrite some bytes of the object under a name, as a peer does, and tell whether it has so
many. -/
def overwrite (d : Directory) (name : String) (start : Nat) (bytes : List UInt8) :
    Except Fault Bool × Directory :=
  match d.attach name with
  | .error fault => (.error fault, d)
  | .ok a =>
    if a.size < start + bytes.length then (.ok false, d)
    else (.ok true, d.update a.object ((d.memory a.object).store start bytes))

/-- Put an object with the given contents under a name. -/
def place (d : Directory) (name : String) (contents : Memory) : Directory :=
  let (id, claimed) := d.claim name
  claimed.update id contents

/-- Put a folder under a name. -/
def placeFolder (d : Directory) (name : String) : Directory :=
  { d with names := d.names.insert name .folder }

end Directory
end SharedExchange
