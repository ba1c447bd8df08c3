import SharedExchange.Value.Basic

/-! # Edited copies

A value never changes: an edit answers a new value in which only the nodes on the way to the change
are new, and every other node is the old one. Each edit is told the number of the first new node;
`updateIn` numbers the nodes along its path from there on.

An edit that does not apply, such as a key asked of a sequence, has no answer. -/

namespace SharedExchange.Value

/-- Put a value under a key, keeping keys in ascending order; an equal key is replaced. -/
def insertEntry (key : String) (child : Value) :
    List (String × Value) → List (String × Value)
  | [] => [(key, child)]
  | (key', child') :: entries =>
    match Utf8.order key key' with
    | .lt => (key, child) :: (key', child') :: entries
    | .eq => (key', child) :: entries
    | .gt => (key', child') :: insertEntry key child entries

/-- A keyed container from pairs in any order; a later pair replaces an earlier one of its key. -/
def ofPairs (kind : DictKind) (node : NodeId) (pairs : List (String × Value)) : Value :=
  dict kind node (pairs.foldl (fun entries (key, child) => insertEntry key child entries) [])

/-- With a key set; only for keyed containers. -/
def insert? (v : Value) (node : NodeId) (key : String) (child : Value) : Option Value :=
  match v with
  | dict kind _ entries => some (dict kind node (insertEntry key child entries))
  | _ => none

/-- Without a key; only for keyed containers. A container that lacks the key is itself the
answer. -/
def erase? (v : Value) (node : NodeId) (key : String) : Option Value :=
  match v with
  | dict kind old entries =>
    if (entries.lookup key).isSome then
      some (dict kind node (entries.filter fun (key', _) => key' != key))
    else some (dict kind old entries)
  | _ => none

/-- With an item appended; only for sequences. -/
def push? (v : Value) (node : NodeId) (child : Value) : Option Value :=
  match v with
  | seq kind _ items => some (seq kind node (items ++ [child]))
  | _ => none

/-- With the item at an existing position replaced; only for sequences. -/
def set? (v : Value) (node : NodeId) (i : Nat) (child : Value) : Option Value :=
  match v with
  | seq kind _ items => if i < items.length then some (seq kind node (items.set i child)) else none
  | _ => none

/-- With the child one step down replaced. -/
def replaceChild? (v : Value) (node : NodeId) (segment : String) (child : Value) :
    Option Value :=
  match v with
  | dict _ _ _ => v.insert? node segment child
  | seq _ _ _ => (position? segment).bind fun i => v.set? node i child
  | _ => none

/-- With the value at the end of a path replaced by `f` of it. The container at depth `i` of the
path is answered by the new node `node + i`. -/
def updateIn (f : Value → Value) : (node : NodeId) → (path : List String) → Value → Option Value
  | _, [], v => some (f v)
  | node, segment :: path, v => do
    let child ← v.child? segment
    let updated ← child.updateIn f (node + 1) path
    v.replaceChild? node segment updated

/-- The same node seen as the other kind of keyed container or of sequence. -/
def recast? (target : Kind) (v : Value) : Option Value :=
  match v, target with
  | seq _ node items, .seq kind => some (seq kind node items)
  | dict _ node entries, .dict kind => some (dict kind node entries)
  | _, _ => none

end SharedExchange.Value
