import SharedExchange.Directory

/-! # Signatures

Every structure laid out in a shared object opens with a magic number and a version. A party that
attaches to an object first makes sure that the header fits into it and that the signature is the
expected one. -/

namespace SharedExchange

/-- The magic number of a structure and the room its header takes. -/
structure Signature where
  magic : UInt32
  headerSize : Nat

namespace Signature

/-- The one version of every layout. -/
def version : UInt32 := 1

/-- Write magic number and version at the start of an object. -/
def write (s : Signature) (m : Memory) : Memory := (m.store32 0 s.magic).store32 4 version

/-- The header fits, the magic number is right, the version is right, in this order. -/
def check (s : Signature) (m : Memory) : Except Fault Unit := do
  if m.size < s.headerSize then throw (.wrongLayout s.headerSize m.size)
  if m.load32 0 ≠ s.magic then throw (.wrongMagic s.magic.toNat (m.load32 0).toNat)
  if m.load32 4 ≠ version then throw (.wrongVersion version.toNat (m.load32 4).toNat)

end Signature
end SharedExchange
