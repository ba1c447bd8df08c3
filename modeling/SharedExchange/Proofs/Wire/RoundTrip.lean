import Mathlib.Tactic
import SharedExchange.Proofs.Wire.Reading

/-! # Reading back a written value

The wire form of a value is read back as a value with the same content, whatever stands behind it
(`Value.decodeFront_encode`). The nodes of the value read are new, so the content is all that can
come back.

Both directions count levels from the root: writing refuses what lies deeper than `nestingLimit`,
and reading starts with one more level than that, so that it follows exactly what writing lets
through. -/

namespace SharedExchange.Value

/-! ## Writing succeeds -/

mutual

/-- A value that does not nest too deep is measured. -/
theorem measure_eq (v : Value) {depth : Nat} (h : depth + v.levels ≤ nestingLimit) :
    v.measure depth = .ok v.wireLength := by
  have hdepth : ¬nestingLimit < depth := by omega
  cases v with
  | seq kind node items =>
    rw [levels] at h
    rw [measure, if_neg hdepth, measureItems_eq items (by omega)]
    rfl
  | dict kind node entries =>
    rw [levels] at h
    rw [measure, if_neg hdepth, measureEntries_eq entries (by omega)]
    rfl
  | _ => simp [measure, wireLength, hdepth]

/-- Items that do not nest too deep are measured. -/
theorem measureItems_eq (items : List Value) {depth : Nat}
    (h : depth + itemLevels items ≤ nestingLimit + 1) :
    measureItems depth items = .ok (itemLengths items) := by
  cases items with
  | nil => rfl
  | cons v items =>
    rw [itemLevels] at h
    rw [measureItems, measure_eq v (by omega), measureItems_eq items (by omega)]
    rfl

/-- Entries that do not nest too deep are measured. -/
theorem measureEntries_eq (entries : List (String × Value)) {depth : Nat}
    (h : depth + entryLevels entries ≤ nestingLimit + 1) :
    measureEntries depth entries = .ok (entryLengths entries) := by
  cases entries with
  | nil => rfl
  | cons entry entries =>
    obtain ⟨key, v⟩ := entry
    rw [entryLevels] at h
    rw [measureEntries, measure_eq v (by omega), measureEntries_eq entries (by omega)]
    rfl

end

/-- A value that does not nest too deep is written. -/
theorem encode_eq {v : Value} (h : v.levels ≤ nestingLimit) : v.encode = .ok v.wire := by
  rw [encode, v.measure_eq (by omega)]
  rfl

/-! ## Counts can be believed -/

/-- Every value takes a byte at least. -/
theorem wire_ne_nil (v : Value) : v.wire ≠ [] := by
  cases v <;> simp [wire]

/-- Every item takes a byte at least. -/
theorem length_le_wireItems (items : List Value) : items.length ≤ (wireItems items).length := by
  induction items with
  | nil => exact Nat.zero_le _
  | cons v items ih =>
    have hv := List.length_pos_iff.2 v.wire_ne_nil
    rw [wireItems, List.length_append, List.length_cons]
    omega

/-- Every entry takes the four bytes of the length of its key and a byte more at least. -/
theorem length_le_wireEntries (entries : List (String × Value)) :
    entries.length * 5 ≤ (wireEntries entries).length := by
  induction entries with
  | nil => exact Nat.zero_le _
  | cons entry entries ih =>
    obtain ⟨key, v⟩ := entry
    have hv := List.length_pos_iff.2 v.wire_ne_nil
    rw [wireEntries, wireText]
    simp only [List.length_append, LittleEndian.length_toBytes, List.length_cons]
    omega

/-! ## Reading back -/

/-- An integer takes as many bytes as it has bits for. -/
theorem bound_bytes (kind : IntegerKind) : LittleEndian.bound kind.bytes = 2 ^ kind.width := by
  cases kind <;> rfl

open Input

/-- A written value without children is read back. -/
theorem value_leaf (node : NodeId) (v : Value) (hleaf : v.kind.isContainer = false)
    (hfits : v.Fits) (levels : Nat) (rest : List UInt8) (offset : Nat) :
    ∃ w, Input.value node (levels + 1) ⟨v.wire ++ rest, offset⟩ =
        .ok (w, ⟨rest, offset + v.wire.length⟩) ∧ w.content = v.content := by
  cases v with
  | null =>
    rw [wire]
    exact ⟨.null, value_of_payload rfl, rfl⟩
  | bool b =>
    rw [wire]
    refine ⟨.bool b, value_of_payload ?_, rfl⟩
    cases b <;> rfl
  | integer kind bits =>
    have hbits : bits.toNat < LittleEndian.bound kind.bytes := by
      rw [bound_bytes]
      exact bits.isLt
    rw [wire]
    refine ⟨.integer kind bits, value_of_payload ?_, rfl⟩
    simp only [payload, UInt8.ofNat_toNat, Kind.ofByte?_byte, number_toBytes hbits, bind,
      Except.bind, LittleEndian.length_toBytes, BitVec.ofNat_toNat, BitVec.setWidth_eq]
  | float32 bits =>
    have hbits : bits.toNat < LittleEndian.bound 4 := bits.toNat_lt
    rw [wire]
    refine ⟨.float32 bits, value_of_payload ?_, rfl⟩
    simp only [payload, UInt8.ofNat_toNat, Kind.ofByte?_byte, number_toBytes hbits, bind,
      Except.bind, LittleEndian.length_toBytes, UInt32.ofNat_toNat]
  | float64 bits =>
    have hbits : bits.toNat < LittleEndian.bound 8 := bits.toNat_lt
    rw [wire]
    refine ⟨.float64 bits, value_of_payload ?_, rfl⟩
    simp only [payload, UInt8.ofNat_toNat, Kind.ofByte?_byte, number_toBytes hbits, bind,
      Except.bind, LittleEndian.length_toBytes, UInt64.ofNat_toNat]
  | floats shape components =>
    have hlength : (components.toList.flatMap fun component =>
        LittleEndian.toBytes 4 component.toNat).length = 4 * shape.size := by
      simp [List.length_flatMap, Nat.mul_comm]
    rw [wire]
    refine ⟨.floats shape components, value_of_payload ?_, rfl⟩
    simp only [payload, UInt8.ofNat_toNat, Kind.ofByte?_byte, words_toBytes, bind, Except.bind,
      hlength]
  | text n s =>
    rw [wire]
    refine ⟨.text (node + offset) s, value_of_payload ?_, rfl⟩
    simp only [payload, UInt8.ofNat_toNat, Kind.ofByte?_byte, text_wireText hfits, bind,
      Except.bind]
  | seq kind n items => cases hleaf
  | dict kind n entries => cases hleaf

section

variable {node : NodeId} {levels offset : Nat} {rest : List UInt8}

/-- A written sequence is read back when its items are. -/
theorem value_seq (n : NodeId) {kind : SeqKind} {items ws : List Value}
    (hlength : items.length < UInt32.size)
    (hread : Input.items (Input.value node levels) items.length
      ⟨wireItems items ++ rest, offset + 1 + 4⟩ =
        .ok (ws, ⟨rest, offset + 1 + 4 + (wireItems items).length⟩)) :
    Input.value node (levels + 1) ⟨(Value.seq kind n items).wire ++ rest, offset⟩ =
      .ok (.seq kind (node + offset) ws,
        ⟨rest, offset + (Value.seq kind n items).wire.length⟩) := by
  -- the count is believed, as every item takes a byte
  have hcount : items.length * 1 ≤ (wireItems items ++ rest).length := by
    have hle := length_le_wireItems items
    rw [List.length_append]
    omega
  rw [wire]
  refine value_of_payload ?_
  rw [List.append_assoc, List.length_append, LittleEndian.length_toBytes, ← Nat.add_assoc]
  simp only [payload, UInt8.ofNat_toNat, Kind.ofByte?_byte, count_toBytes hlength hcount, hread,
    bind, Except.bind]

/-- A written dictionary is read back when its entries are. -/
theorem value_dict (n : NodeId) {kind : DictKind} {entries ws : List (String × Value)}
    (hlength : entries.length < UInt32.size)
    (hread : Input.entries (Input.value node levels) entries.length none
      ⟨wireEntries entries ++ rest, offset + 1 + 4⟩ =
        .ok (ws, ⟨rest, offset + 1 + 4 + (wireEntries entries).length⟩)) :
    Input.value node (levels + 1) ⟨(Value.dict kind n entries).wire ++ rest, offset⟩ =
      .ok (.dict kind (node + offset) ws,
        ⟨rest, offset + (Value.dict kind n entries).wire.length⟩) := by
  -- the count is believed, as every entry takes five bytes
  have hcount : entries.length * 5 ≤ (wireEntries entries ++ rest).length := by
    have hle := length_le_wireEntries entries
    rw [List.length_append]
    omega
  rw [wire]
  refine value_of_payload ?_
  rw [List.append_assoc, List.length_append, LittleEndian.length_toBytes, ← Nat.add_assoc]
  simp only [payload, UInt8.ofNat_toNat, Kind.ofByte?_byte, count_toBytes hlength hcount, hread,
    bind, Except.bind]

end

mutual

/-- A written value is read back when enough levels are left for it. -/
theorem value_wire (node : NodeId) (v : Value) {levels : Nat} (hlevels : v.levels < levels)
    (hordered : v.Ordered) (hfits : v.Fits) (rest : List UInt8) (offset : Nat) :
    ∃ w, Input.value node levels ⟨v.wire ++ rest, offset⟩ =
        .ok (w, ⟨rest, offset + v.wire.length⟩) ∧ w.content = v.content := by
  -- one level is used up by the value itself
  obtain ⟨levels, rfl⟩ := Nat.exists_eq_succ_of_ne_zero (Nat.ne_zero_of_lt hlevels)
  cases v with
  | seq kind n items =>
    rw [Value.levels] at hlevels
    rw [Ordered] at hordered
    rw [Fits] at hfits
    obtain ⟨ws, hread, hcontents⟩ := items_wireItems node items (Nat.le_of_lt_succ hlevels)
      hordered hfits.2 rest (offset + 1 + 4)
    exact ⟨_, value_seq n hfits.1 hread, by rw [content, content, hcontents]⟩
  | dict kind n entries =>
    rw [Value.levels] at hlevels
    rw [Ordered] at hordered
    rw [Fits] at hfits
    obtain ⟨ws, hread, hcontents⟩ := entries_wireEntries node entries (Nat.le_of_lt_succ hlevels)
      hordered hfits.2 rest (offset + 1 + 4)
    exact ⟨_, value_dict n hfits.1 hread, by rw [content, content, hcontents]⟩
  | _ => exact value_leaf node _ rfl hfits levels rest offset

/-- Written items are read back one after the other. -/
theorem items_wireItems (node : NodeId) (items : List Value) {levels : Nat}
    (hlevels : itemLevels items ≤ levels) (hordered : ItemsOrdered items) (hfits : ItemsFit items)
    (rest : List UInt8) (offset : Nat) :
    ∃ ws, Input.items (Input.value node levels) items.length ⟨wireItems items ++ rest, offset⟩ =
        .ok (ws, ⟨rest, offset + (wireItems items).length⟩) ∧
      itemContents ws = itemContents items := by
  cases items with
  | nil => exact ⟨[], rfl, rfl⟩
  | cons v items =>
    rw [itemLevels] at hlevels
    rw [ItemsOrdered] at hordered
    rw [ItemsFit] at hfits
    have hfirst : v.levels < levels := by omega
    have hothers : itemLevels items ≤ levels := by omega
    obtain ⟨w, hv, hcontent⟩ := value_wire node v hfirst hordered.1 hfits.1
      (wireItems items ++ rest) offset
    obtain ⟨ws, hitems, hcontents⟩ := items_wireItems node items hothers hordered.2 hfits.2 rest
      (offset + v.wire.length)
    refine ⟨w :: ws, ?_, by rw [itemContents, itemContents, hcontent, hcontents]⟩
    simp only [wireItems, List.append_assoc, List.length_cons, Input.items, hv, hitems, bind,
      Except.bind, pure, Except.pure, List.length_append, Nat.add_assoc]

/-- Written entries are read back one after the other, each key behind the one before. -/
theorem entries_wireEntries (node : NodeId) (entries : List (String × Value)) {levels : Nat}
    {last : Option String} (hlevels : entryLevels entries ≤ levels)
    (hordered : EntriesOrdered last entries) (hfits : EntriesFit entries) (rest : List UInt8)
    (offset : Nat) :
    ∃ ws, Input.entries (Input.value node levels) entries.length last
          ⟨wireEntries entries ++ rest, offset⟩ =
        .ok (ws, ⟨rest, offset + (wireEntries entries).length⟩) ∧
      entryContents ws = entryContents entries := by
  cases entries with
  | nil => exact ⟨[], rfl, rfl⟩
  | cons entry entries =>
    obtain ⟨key, v⟩ := entry
    rw [entryLevels] at hlevels
    rw [EntriesOrdered] at hordered
    rw [EntriesFit] at hfits
    obtain ⟨hkey, hvalue, hentries⟩ := hordered
    -- the key comes after the one before, if there is one
    have hcheck : checkKey last key = .ok () := by
      cases last with
      | none => rfl
      | some last => rw [checkKey, hkey last rfl]
    have hfirst : v.levels < levels := by omega
    have hothers : entryLevels entries ≤ levels := by omega
    obtain ⟨w, hv, hcontent⟩ := value_wire node v hfirst hvalue hfits.2.1
      (wireEntries entries ++ rest) (offset + (wireText key).length)
    obtain ⟨ws, hrest, hcontents⟩ := entries_wireEntries node entries hothers hentries hfits.2.2
      rest (offset + (wireText key).length + v.wire.length)
    refine ⟨(key, w) :: ws, ?_, by rw [entryContents, entryContents, hcontent, hcontents]⟩
    simp only [wireEntries, List.append_assoc, List.length_cons, Input.entries,
      text_wireText hfits.1, hcheck, hv, hrest, bind, Except.bind, pure, Except.pure,
      List.length_append]
    rw [Nat.add_assoc, Nat.add_assoc]

end

/-! ## The wire form as a whole -/

/-- A value that does not nest too deep, with lengths and counts that fit, is written and read back
with the same content, whatever stands behind it, and it is known where it ends. -/
theorem decodeFront_encode (v : Value) (hlevels : v.levels ≤ nestingLimit) (hordered : v.Ordered)
    (hfits : v.Fits) (node : NodeId) (rest : List UInt8) :
    ∃ bytes, v.encode = .ok bytes ∧
      (∃ w, decodeFront node (bytes ++ rest) = .ok (w, bytes.length) ∧ w.content = v.content) ∧
      ∃ w, decode node bytes = .ok w ∧ w.content = v.content := by
  have hread : ∀ rest, ∃ w, decodeFront node (v.wire ++ rest) = .ok (w, v.wire.length) ∧
      w.content = v.content := by
    intro rest
    obtain ⟨w, hvalue, hcontent⟩ := value_wire node v (Nat.lt_succ_of_le hlevels) hordered hfits
      rest 0
    refine ⟨w, ?_, hcontent⟩
    rw [decodeFront, hvalue, Nat.zero_add]
    rfl
  refine ⟨v.wire, encode_eq hlevels, hread rest, ?_⟩
  obtain ⟨w, hfront, hcontent⟩ := hread []
  rw [List.append_nil] at hfront
  -- nothing is left behind the value
  refine ⟨w, ?_, hcontent⟩
  simp only [decode, hfront, bind, Except.bind, lt_irrefl, if_false, pure, Except.pure]

/-- A nested value with a double that is not a number, followed by bytes of something else. -/
theorem decodeFront_encode_nested :
    let v : Value := .dict .map 3 [("a", .seq .vector 4 [.text 5 "x", .float64 0x7ff8000000000001]),
      ("b", .integer .int8 0xff#8)]
    v.levels = 2 ∧ ∃ bytes, v.encode = .ok bytes ∧
      (∃ w, decodeFront 10 (bytes ++ [7, 7]) = .ok (w, bytes.length) ∧ w.content = v.content) ∧
      ∃ w, decode 10 bytes = .ok w ∧ w.content = v.content := by
  refine ⟨by decide, decodeFront_encode _ (by decide) ?_ ?_ 10 [7, 7]⟩
  · have hab : Utf8.order "a" "b" = .lt := by decide
    simp [Ordered, EntriesOrdered, ItemsOrdered, hab]
  · have ha : Utf8.size "a" < UInt32.size := by decide
    have hb : Utf8.size "b" < UInt32.size := by decide
    have hx : Utf8.size "x" < UInt32.size := by decide
    simp only [Fits, EntriesFit, ItemsFit, List.length_cons, List.length_nil, ha, hb, hx]
    decide

end SharedExchange.Value
