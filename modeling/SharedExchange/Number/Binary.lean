/-! # Binary floating-point numbers

Floats travel through the exchange as bit patterns and are never computed with, except that two of
them can be compared and that any number can be read as a double. Both are defined here on the
patterns, so that they mean the same everywhere: a pattern is a sign, an exponent field and a
fraction field. -/

namespace SharedExchange

/-- The widths of the exponent and fraction fields of a format. -/
structure Binary where
  exponentBits : Nat
  fractionBits : Nat

namespace Binary

/-- Four-byte floats. -/
def single : Binary := ⟨8, 23⟩

/-- Eight-byte floats. -/
def double : Binary := ⟨11, 52⟩

/-- The exponent field of the number one. -/
def bias (f : Binary) : Nat := 1 <<< (f.exponentBits - 1) - 1

/-- A pattern without its sign. -/
def magnitude (f : Binary) (bits : Nat) : Nat := bits % (1 <<< (f.exponentBits + f.fractionBits))

/-- The exponent field of a pattern. -/
def exponent (f : Binary) (bits : Nat) : Nat := f.magnitude bits >>> f.fractionBits

/-- The fraction field of a pattern. -/
def fraction (f : Binary) (bits : Nat) : Nat := bits % (1 <<< f.fractionBits)

/-- The pattern of positive infinity. -/
def infinity (f : Binary) : Nat := (1 <<< f.exponentBits - 1) <<< f.fractionBits

/-- Not a number: beyond infinity. -/
def isNaN (f : Binary) (bits : Nat) : Bool := f.infinity < f.magnitude bits

/-- Whether two patterns stand for equal numbers: the two zeros are equal, and what is not a number
equals nothing. -/
def equal (f : Binary) (a b : Nat) : Bool :=
  !f.isNaN a && !f.isNaN b && (a == b || (f.magnitude a == 0 && f.magnitude b == 0))

/-- Drop the low `places` bits, rounding to the nearest and from the middle to the even
neighbour. -/
def roundOff (n places : Nat) : Nat :=
  let kept := n >>> places
  let unit := 1 <<< places
  let lost := n % unit
  if unit < 2 * lost || (unit == 2 * lost && kept % 2 == 1) then kept + 1 else kept

/-- The pattern nearest to a natural number in the format's range. The leading one of the rounded
number is added to the exponent field, so that a carry out of the fraction raises the exponent. -/
def ofNat (f : Binary) (n : Nat) : Nat :=
  if n = 0 then 0 else
  let top := n.log2
  let significand :=
    if top ≤ f.fractionBits then n <<< (f.fractionBits - top)
    else roundOff n (top - f.fractionBits)
  (top + f.bias - 1) <<< f.fractionBits + significand

/-- The pattern nearest to an integer. -/
def ofInt (f : Binary) (n : Int) : Nat :=
  (if n < 0 then 1 <<< (f.exponentBits + f.fractionBits) else 0) + f.ofNat n.natAbs

/-- The double that stands for the same number as a single. A number below the normal range of
singles is normal as a double: its leading one moves into the exponent. -/
def widen (bits : Nat) : Nat :=
  let fraction := single.fraction bits
  let magnitude :=
    if bits % (1 <<< 31) = 0 then 0
    else if single.exponent bits = 255 then double.infinity + fraction <<< 29
    else if single.exponent bits = 0 then
      let top := fraction.log2
      (top + 873) <<< 52 + fraction <<< (52 - top)
    else (single.exponent bits + 896) <<< 52 + fraction <<< 29
  (if 1 <<< 31 ≤ bits then 1 <<< 63 else 0) + magnitude

/-! One, the least positive single, and an integer that lies midway between two doubles. -/

example : widen 0x3f800000 = 0x3ff0000000000000 := by decide
example : widen 0x00000001 = 0x36a0000000000000 := by decide
example : double.ofInt (-1) = 0xbff0000000000000 := by decide
example : double.ofNat (1 <<< 53 + 1) = double.ofNat (1 <<< 53) := by decide

end Binary
end SharedExchange
