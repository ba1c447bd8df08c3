import SharedExchange.Pool.Basic
import SharedExchange.Ring.Basic

/-! # Rosters of endpoints

A roster is one party's own table of the rings and pools it holds, by name, a table for each. A name
that is taken in the table is refused before anything is made or looked for. -/

namespace SharedExchange

/-- The rings and pools that a party holds. -/
structure Roster where
  rings : Std.TreeMap String Ring
  pools : Std.TreeMap String Pool

namespace Roster

/-- A roster without endpoints. -/
def empty : Roster := ⟨∅, ∅⟩

instance : Inhabited Roster := ⟨empty⟩

/-- A name that is not in a table yet. -/
def checkVacant {α : Type} (table : Std.TreeMap String α) (name : String) : Except Fault Unit :=
  if table.contains name then .error (.nameTaken name) else .ok ()

/-- Keep in a table what is made or found under a name, unless the name is taken there. -/
def keep {α : Type} (table : Std.TreeMap String α) (name : String)
    (make : Directory → Except Failure α × Directory) (d : Directory) :
    Except Failure α × Std.TreeMap String α × Directory :=
  match checkVacant table name with
  | .error fault => (.error (.refused fault), table, d)
  | .ok () =>
    match make d with
    | (.error failure, d) => (.error failure, table, d)
    | (.ok made, d) => (.ok made, table.insert name made, d)

/-- Make a ring and keep it. -/
def createRing (roster : Roster) (name : String) (capacity : UInt64) (patience : Patience)
    (d : Directory) : Except Failure Ring × Roster × Directory :=
  let (answer, rings, d) := keep roster.rings name (Ring.create name capacity patience) d
  (answer, { roster with rings }, d)

/-- Find a ring and keep it. -/
def attachRing (roster : Roster) (name : String) (d : Directory) :
    Except Failure Ring × Roster × Directory :=
  let (answer, rings, d) := keep roster.rings name (Ring.attach name .standard) d
  (answer, { roster with rings }, d)

/-- Hand a ring back and forget its name. -/
def takeRing (roster : Roster) (name : String) : Option Ring × Roster :=
  (roster.rings[name]?, { roster with rings := roster.rings.erase name })

/-- Make a pool and keep it. -/
def createPool (roster : Roster) (name : String) (size : UInt64) (d : Directory) :
    Except Failure Pool × Roster × Directory :=
  let (answer, pools, d) := keep roster.pools name (Pool.create name size) d
  (answer, { roster with pools }, d)

/-- Find a pool and keep it. -/
def attachPool (roster : Roster) (name : String) (d : Directory) :
    Except Failure Pool × Roster × Directory :=
  let (answer, pools, d) := keep roster.pools name (Pool.attach name) d
  (answer, { roster with pools }, d)

/-- Hand a pool back and forget its name. -/
def takePool (roster : Roster) (name : String) : Option Pool × Roster :=
  (roster.pools[name]?, { roster with pools := roster.pools.erase name })

/-- The names of the rings, in order. -/
def ringNames (roster : Roster) : List String := roster.rings.keys

/-- The names of the pools, in order. -/
def poolNames (roster : Roster) : List String := roster.pools.keys

/-- End all holds. -/
def release (roster : Roster) (d : Directory) : Directory :=
  let d := roster.rings.foldl (fun d _ r => d.release r.attachment) d
  roster.pools.foldl (fun d _ p => d.release p.attachment) d

end Roster
end SharedExchange
