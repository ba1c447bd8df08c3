/-! # Kinds of values

Every value has a kind, and every kind a byte that stands for it in the wire form and in an arena.
`Kind.ofByte?` reads the byte back, and `Kind.ofByte?_eq_some_iff` says that it accepts these bytes
and no others. -/

namespace SharedExchange

/-- The integer kinds. -/
inductive IntegerKind where
  | int8 | int16 | int32 | int64 | uint8 | uint16 | uint32 | uint64
deriving DecidableEq, Inhabited

namespace IntegerKind

/-- How many bytes an integer of this kind takes. -/
def bytes : IntegerKind → Nat
  | int8 | uint8 => 1
  | int16 | uint16 => 2
  | int32 | uint32 => 4
  | int64 | uint64 => 8

/-- How many bits an integer of this kind has. -/
abbrev width (kind : IntegerKind) : Nat := 8 * kind.bytes

/-- Whether the top bit is a sign. -/
def signed : IntegerKind → Bool
  | int8 | int16 | int32 | int64 => true
  | uint8 | uint16 | uint32 | uint64 => false

/-- The number a bit pattern of this kind stands for. -/
def toInt (kind : IntegerKind) (bits : BitVec kind.width) : Int :=
  if kind.signed then bits.toInt else bits.toNat

/-- The pattern widened to 64 bits: the sign is repeated, or zeros are put in front. -/
def toWord (kind : IntegerKind) (bits : BitVec kind.width) : UInt64 :=
  ⟨if kind.signed then bits.signExtend 64 else bits.zeroExtend 64⟩

/-- The low bits of a 64-bit word. -/
def ofWord (kind : IntegerKind) (word : UInt64) : BitVec kind.width := word.toBitVec.setWidth _

/-- Narrowing undoes widening. -/
@[simp] theorem ofWord_toWord (kind : IntegerKind) (bits : BitVec kind.width) :
    kind.ofWord (kind.toWord bits) = bits := by
  have hw : kind.width ≤ 64 := by cases kind <;> decide
  ext i hi
  have h64 : i < 64 := Nat.lt_of_lt_of_le hi hw
  by_cases h : kind.signed
  · simp [ofWord, toWord, h, hi, h64, BitVec.getElem_signExtend]
  · simp [ofWord, toWord, h, hi, h64]

end IntegerKind

/-- The shapes of a fixed run of 32-bit floats; matrices are written column by column. -/
inductive Shape where
  | vec2 | vec3 | vec4 | mat3 | mat4x3 | mat4
deriving DecidableEq, Inhabited

/-- How many components a shape has. -/
def Shape.size : Shape → Nat
  | vec2 => 2
  | vec3 => 3
  | vec4 => 4
  | mat3 => 9
  | mat4x3 => 12
  | mat4 => 16

/-- The kinds of sequence. -/
inductive SeqKind where
  | vector | array
deriving DecidableEq, Inhabited

/-- The kinds of keyed container. -/
inductive DictKind where
  | map | table
deriving DecidableEq, Inhabited

/-- The kinds of values. -/
inductive Kind where
  | null
  | bool
  | integer (kind : IntegerKind)
  | float32
  | float64
  | text
  | floats (shape : Shape)
  | seq (kind : SeqKind)
  | dict (kind : DictKind)
deriving DecidableEq, Inhabited

namespace Kind

/-- The byte that stands for a kind. -/
def byte : Kind → UInt8
  | null => 0x00
  | integer .int32 => 0x01
  | float32 => 0x02
  | float64 => 0x03
  | bool => 0x04
  | text => 0x05
  | dict .map => 0x06
  | seq .vector => 0x07
  | seq .array => 0x08
  | dict .table => 0x09
  | integer .int64 => 0x0a
  | integer .int8 => 0x0b
  | integer .int16 => 0x0c
  | integer .uint8 => 0x0d
  | integer .uint16 => 0x0e
  | integer .uint32 => 0x0f
  | floats .vec2 => 0x10
  | floats .vec3 => 0x11
  | floats .vec4 => 0x12
  | floats .mat3 => 0x13
  | floats .mat4x3 => 0x14
  | floats .mat4 => 0x15
  | integer .uint64 => 0x16

/-- All kinds, in the order of their bytes. -/
def all : List Kind :=
  [null, integer .int32, float32, float64, bool, text, dict .map, seq .vector, seq .array,
    dict .table, integer .int64, integer .int8, integer .int16, integer .uint8, integer .uint16,
    integer .uint32, floats .vec2, floats .vec3, floats .vec4, floats .mat3, floats .mat4x3,
    floats .mat4, integer .uint64]

/-- The kind that a byte stands for. -/
def ofByte? (b : UInt8) : Option Kind := all[b.toNat]?

/-- The name of a kind in descriptions. -/
def label : Kind → String
  | null => "Null"
  | bool => "Bool"
  | integer .int8 => "Int8"
  | integer .int16 => "Int16"
  | integer .int32 => "Int32"
  | integer .int64 => "Int64"
  | integer .uint8 => "UInt8"
  | integer .uint16 => "UInt16"
  | integer .uint32 => "UInt32"
  | integer .uint64 => "UInt64"
  | float32 => "Float32"
  | float64 => "Float64"
  | text => "String"
  | floats .vec2 => "Vec2"
  | floats .vec3 => "Vec3"
  | floats .vec4 => "Vec4"
  | floats .mat3 => "Mat3"
  | floats .mat4x3 => "Mat4x3"
  | floats .mat4 => "Mat4"
  | dict .map => "Map"
  | dict .table => "Table"
  | seq .vector => "Vector"
  | seq .array => "Array"

/-- How many float components a kind has, when it is a float shape. -/
def componentCount? : Kind → Option Nat
  | floats shape => some shape.size
  | _ => none

/-- Whether values of the kind hold other values. -/
def isContainer : Kind → Bool
  | seq _ | dict _ => true
  | _ => false

/-- The byte of a kind is read as that kind. -/
@[simp] theorem ofByte?_byte (kind : Kind) : ofByte? kind.byte = some kind := by
  cases kind with
  | integer k => cases k <;> rfl
  | floats s => cases s <;> rfl
  | seq k => cases k <;> rfl
  | dict k => cases k <;> rfl
  | _ => rfl

/-- A byte that is read as a kind is the byte of it. -/
theorem byte_of_ofByte? {b : UInt8} {kind : Kind} (h : ofByte? b = some kind) : kind.byte = b := by
  have key : ∀ i : Fin 23, (all.get i).byte.toNat = i.val := by decide
  obtain ⟨hlt, hk⟩ := List.getElem?_eq_some_iff.1 h
  subst hk
  exact UInt8.toNat_inj.1 (key ⟨b.toNat, hlt⟩)

end Kind
end SharedExchange
