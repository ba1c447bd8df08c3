import Mathlib.Tactic
import SharedExchange.Value.Content
import SharedExchange.Wire.Decode

/-! # Reading what was written

Each way of reading the front of an input takes back what the corresponding way of writing put
there, and leaves the rest of the input alone: `take_append`, `number_toBytes`, `text_wireText`,
`count_toBytes` and `words_toBytes`. A value is read by the byte of its kind and what stands behind
it (`value_of_payload`). -/

namespace SharedExchange.Input

/-- The bytes in front are taken, and those behind them are left. -/
theorem take_append (bytes rest : List UInt8) (offset : Nat) :
    (⟨bytes ++ rest, offset⟩ : Input).take bytes.length =
      .ok (bytes, ⟨rest, offset + bytes.length⟩) := by
  have hholds : (⟨bytes ++ rest, offset⟩ : Input).holds bytes.length = true := by
    rw [holds_iff, List.length_append]
    exact Nat.le_add_right ..
  rw [take, if_pos hholds, List.take_left, List.drop_left]

/-- A number that was written is read back, whatever stands behind it. -/
theorem number_toBytes {width n : Nat} (hn : n < LittleEndian.bound width) (rest : List UInt8)
    (offset : Nat) :
    (⟨LittleEndian.toBytes width n ++ rest, offset⟩ : Input).number width =
      .ok (n, ⟨rest, offset + width⟩) := by
  have htake := take_append (LittleEndian.toBytes width n) rest offset
  rw [LittleEndian.length_toBytes] at htake
  rw [number, htake]
  simp only [bind, Except.bind, pure, Except.pure, LittleEndian.ofBytes_toBytes_of_lt hn]

/-- One byte is a number of one byte. -/
theorem number_byte (b : UInt8) (rest : List UInt8) (offset : Nat) :
    (⟨b :: rest, offset⟩ : Input).number 1 = .ok (b.toNat, ⟨rest, offset + 1⟩) := by
  have htake : (⟨b :: rest, offset⟩ : Input).take 1 = .ok ([b], ⟨rest, offset + 1⟩) :=
    take_append [b] rest offset
  rw [number, htake]
  simp only [bind, Except.bind, pure, Except.pure, LittleEndian.ofBytes_cons,
    LittleEndian.ofBytes_nil, Nat.mul_zero, Nat.add_zero]

/-- A text that was written is read back, whatever stands behind it. -/
theorem text_wireText {s : String} (hs : Utf8.size s < UInt32.size) (rest : List UInt8)
    (offset : Nat) :
    (⟨Value.wireText s ++ rest, offset⟩ : Input).text =
      .ok (s, ⟨rest, offset + (Value.wireText s).length⟩) := by
  have hsize : Utf8.size s < LittleEndian.bound 4 := hs
  have hnumber := number_toBytes hsize (Utf8.encode s ++ rest) offset
  have htake := take_append (Utf8.encode s) rest (offset + 4)
  rw [Utf8.length_encode] at htake
  rw [text, Value.wireText, List.append_assoc, hnumber]
  simp only [bind, Except.bind, htake, Utf8.decode?_encode, pure, Except.pure,
    List.length_append, LittleEndian.length_toBytes, Utf8.length_encode, Nat.add_assoc]

/-- A count is believed when the rest of the input holds that many entries. -/
theorem count_toBytes {n width : Nat} (hn : n < UInt32.size) {rest : List UInt8}
    (hrest : n * width ≤ rest.length) (offset : Nat) :
    (⟨LittleEndian.toBytes 4 n ++ rest, offset⟩ : Input).count width =
      .ok (n, ⟨rest, offset + 4⟩) := by
  have hholds : (⟨rest, offset + 4⟩ : Input).holds (n * width) = true := by
    rw [holds_iff]
    exact hrest
  have hbound : n < LittleEndian.bound 4 := hn
  rw [count, number_toBytes hbound]
  simp only [bind, Except.bind, pure, Except.pure, hholds, if_true]

/-- Words that were written are read back, whatever stands behind them. -/
theorem words_toBytes {n : Nat} (words : Vector UInt32 n) (rest : List UInt8) (offset : Nat) :
    (⟨(words.toList.flatMap fun word => LittleEndian.toBytes 4 word.toNat) ++ rest, offset⟩ :
      Input).words n = .ok (words, ⟨rest, offset + 4 * n⟩) := by
  induction n generalizing rest with
  | zero =>
    obtain rfl := @Vector.eq_empty _ words
    rfl
  | succ n ih =>
    -- the words are read from the front, so the last one is the one behind the others
    have hsplit : words.pop.push words.back = words := Vector.push_pop_back words
    have hbytes : (words.toList.flatMap fun word => LittleEndian.toBytes 4 word.toNat) =
        (words.pop.toList.flatMap fun word => LittleEndian.toBytes 4 word.toNat) ++
          LittleEndian.toBytes 4 words.back.toNat := by
      have hlist := congrArg Vector.toList hsplit
      rw [Vector.toList_push] at hlist
      rw [← hlist, List.flatMap_append, List.flatMap_singleton]
    have hback : words.back.toNat < LittleEndian.bound 4 := words.back.toNat_lt
    have hlast := number_toBytes hback rest (offset + 4 * n)
    rw [hbytes, List.append_assoc, Input.words, ih]
    simp only [bind, Except.bind, hlast, pure, Except.pure, UInt32.ofNat_toNat, hsplit,
      Nat.mul_add, Nat.mul_one, Nat.add_assoc]

/-- What is read behind the byte of a kind, where `read` reads the values inside of it. -/
def payload (read : Input → Except Fault (Value × Input)) (here : NodeId) (byte : Nat)
    (input : Input) : Except Fault (Value × Input) :=
  match Kind.ofByte? (UInt8.ofNat byte) with
  | none => .error (.tagUnknown byte)
  | some .null => .ok (.null, input)
  | some .bool => input.number 1 >>= fun x => .ok (.bool (x.1 != 0), x.2)
  | some (.integer kind) =>
    input.number kind.bytes >>= fun x => .ok (.integer kind (BitVec.ofNat _ x.1), x.2)
  | some .float32 => input.number 4 >>= fun x => .ok (.float32 (UInt32.ofNat x.1), x.2)
  | some .float64 => input.number 8 >>= fun x => .ok (.float64 (UInt64.ofNat x.1), x.2)
  | some (.floats shape) => input.words shape.size >>= fun x => .ok (.floats shape x.1, x.2)
  | some .text => input.text >>= fun x => .ok (.text here x.1, x.2)
  | some (.seq kind) =>
    input.count 1 >>= fun x => Input.items read x.1 x.2 >>= fun y => .ok (.seq kind here y.1, y.2)
  | some (.dict kind) =>
    input.count 5 >>= fun x =>
      Input.entries read x.1 none x.2 >>= fun y => .ok (.dict kind here y.1, y.2)

/-- A value is read by its kind and its payload. -/
theorem value_succ (node : NodeId) (levels : Nat) (input : Input) :
    Input.value node (levels + 1) input =
      input.number 1 >>= fun x =>
        payload (Input.value node levels) (node + input.offset) x.1 x.2 :=
  rfl

/-- What is read off a payload is read off the byte of its kind and the payload. -/
theorem value_of_payload {node : NodeId} {levels offset : Nat} {kind : Kind}
    {bytes rest : List UInt8} {v : Value}
    (h : payload (Input.value node levels) (node + offset) kind.byte.toNat
      ⟨bytes ++ rest, offset + 1⟩ = .ok (v, ⟨rest, offset + 1 + bytes.length⟩)) :
    Input.value node (levels + 1) ⟨(kind.byte :: bytes) ++ rest, offset⟩ =
      .ok (v, ⟨rest, offset + (kind.byte :: bytes).length⟩) := by
  rw [value_succ, List.cons_append, number_byte, List.length_cons, Nat.add_comm bytes.length,
    ← Nat.add_assoc]
  exact h

end SharedExchange.Input
