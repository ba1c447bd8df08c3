import SharedExchange.Signature

/-! # Block pools

A pool hands out blocks of bytes inside one shared object. Block sizes are powers of two, counted
with the sixteen bytes of bookkeeping in front of each block; `sizeClass` picks the smallest that
holds a request, and `classSize` is its size. The object holds a header, one stack of freed blocks
per size class, and the data area, of which everything below the *bump cursor* has been cut into
blocks.

This module has the layout, the handle, and how a pool is made and found; `Pool.Blocks` has the
blocks. -/

namespace SharedExchange

/-- A block of a pool, as it is named in messages: where its bytes start in the data area and how
many of them were asked for. -/
structure BlockRef where
  offset : UInt64
  size : UInt64
deriving DecidableEq, Inhabited

/-- One party's handle on a pool. -/
structure Pool where
  attachment : Attachment
  /-- The size of the data area. -/
  size : UInt64
  /-- Where the data area starts in the object. -/
  dataStart : UInt64

/-- What a pool has counted. -/
structure PoolStats where
  allocations : UInt64
  deallocations : UInt64
  /-- Allocations served by a freed block. -/
  cacheHits : UInt64
  /-- Allocations served by moving the bump cursor. -/
  bumpAllocations : UInt64
  /-- Bytes of blocks in use, bookkeeping and rounding included. -/
  bytesInUse : UInt64
  /-- Bytes above the bump cursor. -/
  bytesUntouched : UInt64
deriving DecidableEq

namespace Pool

/-! ## Layout -/

/-- Pools are told by this magic number and have a header of 768 bytes. -/
def signature : Signature := ⟨0x504f4f4c, 768⟩

/-- The smallest block. -/
def minBlock : Nat := 64

/-- The bookkeeping in front of the bytes of a block: its size, and the next block of its stack. -/
def blockHeader : Nat := 16

/-- How many size classes there are. -/
def classCount : Nat := 40

/-- The end of a stack of freed blocks. -/
def nil : UInt64 := 0xffffffffffffffff

/-! Where each word of the header stands. -/

def sizeAt : Nat := 8
def dataStartAt : Nat := 16
def bumpAt : Nat := 128
def allocationsAt : Nat := 136
def cacheHitsAt : Nat := 144
def bumpAllocationsAt : Nat := 152
def allocatedBytesAt : Nat := 160
def deallocationsAt : Nat := 256
def freedBytesAt : Nat := 264

/-- Where the top of the stack of a size class stands. -/
def headAt (sizeClass : Nat) : Nat := 384 + 8 * sizeClass

/-- The smallest size class whose blocks hold `total` bytes, bookkeeping included. -/
def sizeClass (total : Nat) : Nat := (max total minBlock - 1).log2 + 1 - 6

/-- The size of the blocks of a class. -/
def classSize (sizeClass : Nat) : UInt64 := UInt64.ofNat (minBlock <<< sizeClass)

/-- Where a block that starts at `start` of the data area lies in the object. -/
def blockAt (p : Pool) (start : UInt64) : Nat := p.dataStart.toNat + start.toNat

/-- The size of a block, bookkeeping included. -/
def blockSize (p : Pool) (start : UInt64) (m : Memory) : UInt64 := m.load64 (p.blockAt start)

/-- Where the link of a block to the next one of its stack stands. -/
def linkAt (p : Pool) (start : UInt64) : Nat := p.blockAt start + 8

/-! ## Making and finding a pool -/

/-- The contents of a fresh pool: a header, and no block cut yet. -/
def format (size : UInt64) (m : Memory) : Memory :=
  let header := ((signature.write m).store64 sizeAt size).store64 dataStartAt
    (UInt64.ofNat signature.headerSize)
  (List.range classCount).foldl (fun m c => m.store64 (headAt c) nil) header

/-- The bytes that a pool with a data area of so many bytes takes. -/
def wholeSize (size : UInt64) : Nat := signature.headerSize + size.toNat

/-- Make a pool with `size` bytes of blocks. -/
def create (name : String) (size : UInt64) (d : Directory) : Except Failure Pool × Directory :=
  if size.toNat < minBlock || size.toNat % minBlock != 0 then
    (.error (.refused (.sizeUnusable size.toNat .poolGranularity)), d)
  else
    d.lay name (wholeSize size) (fun a => ⟨a, size, UInt64.ofNat signature.headerSize⟩)
      (format size)

/-- The handle on a pool, by the header of its object. -/
def ofHeader (a : Attachment) (m : Memory) : Except Failure Pool := do
  signature.check m
  let size := m.load64 sizeAt
  let dataStart := m.load64 dataStartAt
  let needed ← checked (dataStart.toNat + size.toNat)
  if m.size < needed then throw (.refused (.wrongLayout needed m.size))
  return ⟨a, size, dataStart⟩

/-- Find a pool that somebody else made. -/
def attach (name : String) (d : Directory) : Except Failure Pool × Directory :=
  d.examine name ofHeader

/-- The bytes above the bump cursor. -/
def untouched (p : Pool) (m : Memory) : UInt64 := p.size - m.load64 bumpAt

/-- What a pool has counted so far. -/
def stats (p : Pool) (m : Memory) : PoolStats :=
  let allocated := m.load64 allocatedBytesAt
  let freed := m.load64 freedBytesAt
  { allocations := m.load64 allocationsAt
    deallocations := m.load64 deallocationsAt
    cacheHits := m.load64 cacheHitsAt
    bumpAllocations := m.load64 bumpAllocationsAt
    bytesInUse := if allocated < freed then 0 else allocated - freed
    bytesUntouched := p.untouched m }

end Pool
end SharedExchange
