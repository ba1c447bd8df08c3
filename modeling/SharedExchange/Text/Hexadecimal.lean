/-! # Hexadecimal text

Numbers and bytes in digits to the base sixteen. Digits above nine are written with small letters;
capital ones are read too. Reading the written form of bytes gives the bytes back
(`toBytes?_ofBytes`). -/

namespace SharedExchange.Hexadecimal

/-- The digit for a number below sixteen. -/
def digit (n : Nat) : Char := Char.ofNat (if n < 10 then n + 48 else n + 87)

/-- The number a digit stands for. -/
def digit? (c : Char) : Option Nat :=
  if '0' ≤ c ∧ c ≤ '9' then some (c.toNat - 48)
  else if 'a' ≤ c ∧ c ≤ 'f' then some (c.toNat - 87)
  else if 'A' ≤ c ∧ c ≤ 'F' then some (c.toNat - 55)
  else none

/-- A digit is read back. -/
theorem digit?_digit {n : Nat} (h : n < 16) : digit? (digit n) = some n :=
  (by decide : ∀ i : Fin 16, digit? (digit i) = some i.val) ⟨n, h⟩

/-- A number in at least `width` digits. -/
def ofNat (width n : Nat) : String :=
  let digits := Nat.toDigits 16 n
  String.ofList (List.replicate (width - digits.length) '0' ++ digits)

/-- The number written in some digits, the most significant first. -/
def toNat? (s : String) : Option Nat :=
  s.toList.foldlM (fun n c => (digit? c).map (16 * n + ·)) 0

/-- Two digits for each byte. -/
def digitsOf (bytes : List UInt8) : List Char :=
  bytes.flatMap fun b => [digit (b.toNat / 16), digit (b.toNat % 16)]

/-- The bytes that digits stand for, two by two. -/
def bytesOf? : List Char → Option (List UInt8)
  | [] => some []
  | high :: low :: rest =>
    match digit? high, digit? low, bytesOf? rest with
    | some high, some low, some bytes => some (UInt8.ofNat (16 * high + low) :: bytes)
    | _, _, _ => none
  | [_] => none

/-- Bytes are read back from their digits. -/
theorem bytesOf?_digitsOf (bytes : List UInt8) : bytesOf? (digitsOf bytes) = some bytes := by
  induction bytes with
  | nil => rfl
  | cons b bytes ih =>
    have hb := b.toNat_lt
    have split : digitsOf (b :: bytes) =
        digit (b.toNat / 16) :: digit (b.toNat % 16) :: digitsOf bytes := rfl
    rw [split, bytesOf?, digit?_digit (by omega), digit?_digit (by omega), ih]
    simp [Nat.div_add_mod]

/-- Bytes in digits. -/
def ofBytes (bytes : List UInt8) : String := String.ofList (digitsOf bytes)

/-- The bytes written in digits. -/
def toBytes? (s : String) : Option (List UInt8) := bytesOf? s.toList

/-- Bytes are read back from a text of digits. -/
@[simp] theorem toBytes?_ofBytes (bytes : List UInt8) : toBytes? (ofBytes bytes) = some bytes := by
  rw [toBytes?, ofBytes, String.toList_ofList, bytesOf?_digitsOf]

end SharedExchange.Hexadecimal
