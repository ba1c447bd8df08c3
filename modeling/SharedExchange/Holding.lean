import SharedExchange.Arena.Region
import SharedExchange.Foreign
import SharedExchange.LatestRecord
import SharedExchange.Ring.Duplex
import SharedExchange.Roster

/-! # Holdings

Whatever a party can hold on the objects of a directory, in one type, so that a table of handles can
end any of them in the same way (`Holding.release`). -/

namespace SharedExchange

/-- A handle of any kind. Handles across the foreign interface may be null. -/
inductive Holding where
  | object (a : Attachment)
  | ring (r : Ring)
  | link (l : Duplex)
  | pool (p : Pool)
  | record (c : LatestRecord)
  | region (r : Region)
  | roster (r : Roster)
  | foreignRing (r : Option Ring)
  | foreignPool (p : Option Pool)

namespace Holding

/-- End the holds behind a handle. -/
def release (h : Holding) (d : Directory) : Directory :=
  match h with
  | object a => d.release a
  | ring r => d.release r.attachment
  | link l => l.release d
  | pool p => d.release p.attachment
  | record c => d.release c.attachment
  | region r => r.release d
  | roster r => r.release d
  | foreignRing r => Foreign.releaseRing r d
  | foreignPool p => Foreign.releasePool p d

/-! The handle as one of a given kind. -/

def ring? : Holding → Option Ring
  | ring r => some r
  | _ => none

def link? : Holding → Option Duplex
  | link l => some l
  | _ => none

def pool? : Holding → Option Pool
  | pool p => some p
  | _ => none

def record? : Holding → Option LatestRecord
  | record c => some c
  | _ => none

def region? : Holding → Option Region
  | region r => some r
  | _ => none

def roster? : Holding → Option Roster
  | roster r => some r
  | _ => none

def foreignRing? : Holding → Option (Option Ring)
  | foreignRing r => some r
  | _ => none

def foreignPool? : Holding → Option (Option Pool)
  | foreignPool p => some p
  | _ => none

end Holding
end SharedExchange
