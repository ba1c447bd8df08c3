import SharedExchange.Arena.Node
import SharedExchange.Value.Basic

/-! # Paths of keys and positions

A path leads from a value down to one of its parts, and in the same steps from a node of an arena
down to one of the nodes below it. -/

namespace SharedExchange

/-- One step down. -/
inductive Step where
  /-- To the child under a key of a keyed container. -/
  | key (key : String)
  /-- To the child at a position of a sequence. -/
  | position (i : Nat)
deriving DecidableEq, Inhabited

/-- The part of a value at the end of a path. -/
def Value.reach? (v : Value) (path : List Step) : Option Value :=
  path.foldlM (fun v step =>
    match step with
    | .key key => v.lookup? key
    | .position i => v.item? i) v

/-- The node at the end of a path. -/
def Node.reach? (n : Node) (path : List Step) : Option Node :=
  path.foldlM (fun n step =>
    match step with
    | .key key => n.lookup? key
    | .position i => n.item? i) n

end SharedExchange
