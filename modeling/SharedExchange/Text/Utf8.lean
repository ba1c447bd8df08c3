/-! # Texts as bytes

The UTF-8 bytes of a text, their reading (`decode?`, which refuses every other byte sequence) and
the order of keys by those bytes. -/

namespace SharedExchange.Utf8

/-- The UTF-8 bytes of a text. -/
def encode (s : String) : List UInt8 := s.toUTF8.data.toList

/-- The text with the given UTF-8 bytes, if they are UTF-8 at all. -/
def decode? (bytes : List UInt8) : Option String := String.fromUTF8? ⟨bytes.toArray⟩

/-- How many bytes a text takes. -/
def size (s : String) : Nat := s.utf8ByteSize

/-- A text has as many bytes as it takes. -/
@[simp] theorem length_encode (s : String) : (encode s).length = size s := rfl

/-- A text is read back from its bytes. -/
@[simp] theorem decode?_encode (s : String) : decode? (encode s) = some s := by
  have h : (⟨(encode s).toArray⟩ : ByteArray).IsValidUTF8 := s.isValidUTF8
  exact (dif_pos h).trans rfl

/-- Bytes that are read as a text are the bytes of that text. -/
theorem encode_of_decode? {bytes : List UInt8} {s : String} (h : decode? bytes = some s) :
    encode s = bytes := by
  simp only [decode?, String.fromUTF8?] at h
  split at h
  · injection h with h
    subst h
    rfl
  · cases h

/-- No two texts have the same bytes. -/
theorem encode_injective {s t : String} (h : encode s = encode t) : s = t := by
  have := congrArg decode? h
  simpa using this

/-- Keys are ordered by their UTF-8 bytes. -/
def order (a b : String) : Ordering := compare (encode a) (encode b)

/-- Two keys are in neither order exactly when they are the same. -/
theorem order_eq_iff {a b : String} : order a b = .eq ↔ a = b := by
  rw [order, Std.LawfulEqOrd.compare_eq_iff_eq]
  exact ⟨encode_injective, fun h => h ▸ rfl⟩

/-- The order of two keys is turned over when they are exchanged. -/
theorem order_swap (a b : String) : (order a b).swap = order b a := by
  rw [order, order]
  exact Std.OrientedOrd.eq_swap.symm

/-- The order of keys is transitive. -/
theorem order_trans {a b c : String} (hab : order a b = .lt) (hbc : order b c = .lt) :
    order a c = .lt := by
  rw [order] at hab hbc ⊢
  exact Std.TransCmp.lt_trans hab hbc

end SharedExchange.Utf8
