import Mathlib.Tactic
import SharedExchange.Ring.Exchange

/-! # Slots of a ring

A message is found again in the slot that it was written to (`Message.load_store_toBytes`), whatever
an earlier message left there, and reading a slot depends on the bytes of that slot alone
(`Message.load_congr`). Messages whose numbers differ by less than the capacity have slots that
share no byte (`slotAt_apart`). -/

namespace SharedExchange

/-- Bytes may be stored in two parts. -/
theorem Memory.store_append (m : Memory) (start : Nat) (bytes rest : List UInt8) :
    m.store start (bytes ++ rest) = (m.store start bytes).store (start + bytes.length) rest := by
  induction bytes generalizing m start with
  | nil => rfl
  | cons b bs ih =>
    rw [List.cons_append, Memory.store, ih, Memory.store, List.length_cons]
    congr 1
    omega

/-- Storing the bytes of a word is storing the word. -/
theorem Memory.store_word (m : Memory) (start : Nat) (word : UInt64) :
    m.store start (LittleEndian.toBytes 8 word.toNat) = m.store64 start word := rfl

namespace Message

/-! ## One slot -/

/-- Sending writes the fields of a slot one behind the other. -/
theorem store_toBytes (msg : Message) (slot : Nat) (m : Memory) :
    m.store slot msg.toBytes =
      (((((m.store slot [msg.label.domain]).store (slot + 1) [msg.body.mark]).put 2 (slot + 2)
        msg.body.toBytes.length).store32 (slot + 4) msg.label.code).store64 (slot + 8)
          msg.label.request).store (slot + 16) msg.body.toBytes := by
  rw [toBytes,
    show [msg.label.domain, msg.body.mark] = [msg.label.domain] ++ [msg.body.mark] from rfl]
  simp only [Memory.store_append, List.length_append, List.length_singleton,
    LittleEndian.length_toBytes]
  rfl

/-- A message takes sixteen bytes and those of its body. -/
theorem length_toBytes (msg : Message) : msg.toBytes.length = 16 + msg.body.toBytes.length := by
  simp only [toBytes, List.length_append, List.length_cons, List.length_nil,
    LittleEndian.length_toBytes]
  omega

/-- A slot depends on its own bytes. -/
theorem load_congr {slot : Nat} {m m' : Memory}
    (h : ∀ i, slot ≤ i → i < slot + Ring.slotSize → m.get i = m'.get i) :
    load slot m = load slot m' := by
  have hslice : ∀ start count, slot ≤ start → start + count ≤ slot + Ring.slotSize →
      m.slice start count = m'.slice start count := fun start count hfrom hto =>
    Memory.slice_congr fun i hi hlt => h i (by omega) (by omega)
  simp only [Ring.slotSize] at h hslice
  -- the length of the body is cut at the limit, so the slice stays inside the slot
  have hbody : ∀ n, m.slice (slot + 16) (min n inlineLimit) =
      m'.slice (slot + 16) (min n inlineLimit) := fun n =>
    hslice _ _ (by omega) (by simp only [inlineLimit]; omega)
  simp only [load, Memory.load64, Memory.load32, Memory.load, hbody]
  rw [h slot (by omega) (by omega), h (slot + 1) (by omega) (by omega),
    hslice (slot + 2) 2 (by omega) (by omega), hslice (slot + 4) 4 (by omega) (by omega),
    hslice (slot + 8) 8 (by omega) (by omega), hslice (slot + 16) 8 (by omega) (by omega),
    hslice (slot + 24) 8 (by omega) (by omega)]

/-- Bytes in front of the type of a message are not touched by what is written behind them. -/
theorem get_front (msg : Message) {slot i : Nat} (h : i < slot + 2) (m : Memory) :
    (m.store slot msg.toBytes).get i =
      ((m.store slot [msg.label.domain]).store (slot + 1) [msg.body.mark]).get i := by
  rw [store_toBytes, Memory.get_store_of_disjoint _ (.inl (by omega)),
    Memory.get_store64_of_disjoint _ _ (.inl (by omega)), Memory.store32, Memory.put,
    Memory.get_store_of_disjoint _ (.inl (by omega)), Memory.put,
    Memory.get_store_of_disjoint _ (.inl (by omega))]

/-- The label of a message is read back from its slot. -/
theorem label_load_store_toBytes (msg : Message) (slot : Nat) (m : Memory) :
    (load slot (m.store slot msg.toBytes)).label = msg.label := by
  have hdomain : (m.store slot msg.toBytes).get slot = msg.label.domain := by
    rw [msg.get_front (by omega), Memory.get_store_of_disjoint _ (.inl (by omega)),
      Memory.store, Memory.store_nil, Memory.get_set, if_pos rfl]
  have hcode : (m.store slot msg.toBytes).load32 (slot + 4) = msg.label.code := by
    rw [store_toBytes, Memory.load32_store_of_disjoint _ (.inl (by omega)),
      Memory.load32_store64_of_disjoint _ _ (.inl (by omega)), Memory.load32_store32_same]
  have hrequest : (m.store slot msg.toBytes).load64 (slot + 8) = msg.label.request := by
    rw [store_toBytes, Memory.load64_store_of_disjoint _ (.inl (by omega)),
      Memory.load64_store64_same]
  rw [load, hdomain, hcode, hrequest]

/-- The body of a message is read back from its slot, without what an earlier message left behind
it. -/
theorem body_load_store_toBytes (msg : Message) (slot : Nat) (m : Memory)
    (hfits : msg.body.toBytes.length ≤ inlineLimit) :
    (load slot (m.store slot msg.toBytes)).body = msg.body := by
  have hmark : (m.store slot msg.toBytes).get (slot + 1) = msg.body.mark := by
    rw [msg.get_front (by omega), Memory.store, Memory.store_nil, Memory.get_set, if_pos rfl]
  obtain ⟨label, body⟩ := msg
  rw [load, hmark]
  cases body with
  | inline bytes =>
    have hlimit : bytes.length ≤ inlineLimit := hfits
    -- the length says where the bytes of this message end
    have hlength : (m.store slot (toBytes ⟨label, .inline bytes⟩)).load 2 (slot + 2) =
        bytes.length := by
      rw [store_toBytes, Memory.load_store_of_disjoint _ (.inl (by omega)), Memory.store64,
        Memory.load_put_of_disjoint _ _ (.inl (by omega)), Memory.store32,
        Memory.load_put_of_disjoint _ _ (.inl (by omega)), Memory.load_put_same]
      refine Nat.mod_eq_of_lt (lt_of_le_of_lt hlimit ?_)
      decide
    have hbytes : (m.store slot (toBytes ⟨label, .inline bytes⟩)).slice (slot + 16)
        bytes.length = bytes := by
      rw [store_toBytes]
      exact Memory.slice_store_same ..
    rw [hlength, Nat.min_eq_left hlimit, hbytes]
    rfl
  | pooled b =>
    -- a reference is two words, whatever the length says
    have hoffset : (m.store slot (toBytes ⟨label, .pooled b⟩)).load64 (slot + 16) = b.offset := by
      rw [store_toBytes]
      simp only [Body.toBytes, Memory.store_append, LittleEndian.length_toBytes, Memory.store_word]
      rw [Memory.load64_store64_of_disjoint _ _ (.inl (by omega)), Memory.load64_store64_same]
    have hsize : (m.store slot (toBytes ⟨label, .pooled b⟩)).load64 (slot + 24) = b.size := by
      rw [store_toBytes]
      simp only [Body.toBytes, Memory.store_append, LittleEndian.length_toBytes, Memory.store_word,
        Nat.add_assoc]
      rw [Memory.load64_store64_same]
    rw [hoffset, hsize]
    rfl

/-- A message is read back from its slot. -/
theorem load_store_toBytes (msg : Message) (slot : Nat) (m : Memory)
    (hfits : msg.body.toBytes.length ≤ inlineLimit) :
    load slot (m.store slot msg.toBytes) = msg := by
  have hlabel := msg.label_load_store_toBytes slot m
  have hbody := msg.body_load_store_toBytes slot m hfits
  cases hload : load slot (m.store slot msg.toBytes) with
  | mk label body =>
    rw [hload] at hlabel hbody
    obtain ⟨label', body'⟩ := msg
    simp only at hlabel hbody
    rw [hlabel, hbody]

end Message

namespace Ring

/-! ## Slots side by side -/

/-- Where the slot of the message with a number stands, in a ring with `capacity` slots. -/
def slotAt (capacity number : Nat) : Nat := signature.headerSize + slotSize * (number % capacity)

/-- A slot is found by the number of the message, modulo the capacity. -/
theorem slot_eq (r : Ring) (number : UInt64) :
    r.slot number = slotAt r.capacity.toNat number.toNat := by
  rw [slot, slotAt, UInt64.toNat_mod]

/-- Messages that can be pending together have different slots. -/
theorem slotAt_apart {capacity i j : Nat} (hij : i < j) (hnear : j < i + capacity) :
    slotAt capacity i + slotSize ≤ slotAt capacity j ∨
      slotAt capacity j + slotSize ≤ slotAt capacity i := by
  have hne : i % capacity ≠ j % capacity := by
    intro heq
    -- equal slots would mean that a whole round lies between the two numbers
    have hdvd : capacity ∣ j - i := (Nat.modEq_iff_dvd' (Nat.le_of_lt hij)).1 heq
    have hle := Nat.le_of_dvd (by omega) hdvd
    omega
  simp only [slotAt, slotSize]
  omega

end Ring
end SharedExchange
