import SharedExchange.Value.Basic

/-! # Equality of values

Two values are equal when they have the same kind and equal contents, floats compared as numbers.
A node is taken to be equal to itself without looking inside (`equal`), which is what makes
comparing versions of a large value cheap; `equalContent` is the same comparison without that
shortcut. `sameNode` asks for identity alone, and a scalar is identical to nothing. -/

namespace SharedExchange.Value

/-- Whether both are the same node seen under the same kind. -/
def sameNode : Value → Value → Bool
  | text node _, text node' _ => node == node'
  | seq kind node _, seq kind' node' _ => kind == kind' && node == node'
  | dict kind node _, dict kind' node' _ => kind == kind' && node == node'
  | _, _ => false

/-- Equality of scalars; a scalar equals no node. -/
def equalScalar : Value → Value → Bool
  | null, null => true
  | bool b, bool b' => b == b'
  | integer kind bits, integer kind' bits' => kind == kind' && bits.toNat == bits'.toNat
  | float32 bits, float32 bits' => Binary.single.equal bits.toNat bits'.toNat
  | float64 bits, float64 bits' => Binary.double.equal bits.toNat bits'.toNat
  | floats shape components, floats shape' components' =>
    shape == shape' && (components.toList.zip components'.toList).all fun (a, b) =>
      Binary.single.equal a.toNat b.toNat
  | _, _ => false

mutual

/-- Equality with the shortcut that a node equals itself. -/
def equal : Value → Value → Bool
  | text node s, text node' s' => node == node' || s == s'
  | seq kind node items, seq kind' node' items' =>
    kind == kind' && (node == node' || equalItems items items')
  | dict kind node entries, dict kind' node' entries' =>
    kind == kind' && (node == node' || equalEntries entries entries')
  | v, v' => v.equalScalar v'

/-- Equality of sequences, item by item. -/
def equalItems : List Value → List Value → Bool
  | [], [] => true
  | v :: items, v' :: items' => v.equal v' && equalItems items items'
  | _, _ => false

/-- Equality of entries, key by key and value by value. -/
def equalEntries : List (String × Value) → List (String × Value) → Bool
  | [], [] => true
  | (key, v) :: entries, (key', v') :: entries' =>
    key == key' && v.equal v' && equalEntries entries entries'
  | _, _ => false

end

mutual

/-- Equality of contents; nodes are not looked at. -/
def equalContent : Value → Value → Bool
  | text _ s, text _ s' => s == s'
  | seq kind _ items, seq kind' _ items' => kind == kind' && equalItemContents items items'
  | dict kind _ entries, dict kind' _ entries' =>
    kind == kind' && equalEntryContents entries entries'
  | v, v' => v.equalScalar v'

/-- Equality of the contents of sequences, item by item. -/
def equalItemContents : List Value → List Value → Bool
  | [], [] => true
  | v :: items, v' :: items' => v.equalContent v' && equalItemContents items items'
  | _, _ => false

/-- Equality of the contents of entries, key by key and value by value. -/
def equalEntryContents : List (String × Value) → List (String × Value) → Bool
  | [], [] => true
  | (key, v) :: entries, (key', v') :: entries' =>
    key == key' && v.equalContent v' && equalEntryContents entries entries'
  | _, _ => false

end

end SharedExchange.Value
