import Mathlib.Tactic
import SharedExchange.Proofs.Wire.Canonical

/-! # Lengths that do not fit

Writing measures a value but does not ask whether its lengths and counts can be written in four
bytes; of one that cannot, the low four bytes are written (`LittleEndian.toBytes_mod`). A reader
then takes the front of a text for the whole of it, or the first items of a sequence for all, and
what stands behind them is left over (`decode_text_long`, `decode_seq_long`, `decode_dict_long`).

So a written value is read back exactly when all its lengths and counts fit
(`decode_encode_iff`). -/

namespace SharedExchange

/-- What is written of a number is what is left of it below the bound. -/
theorem LittleEndian.toBytes_mod (width n : Nat) :
    toBytes width (n % bound width) = toBytes width n := by
  have h := toBytes_ofBytes (toBytes width n)
  rwa [length_toBytes, ofBytes_toBytes] at h

/-- The front of a text is a text when it does not end inside a character. -/
theorem Utf8.isSome_decode?_take {s : String} {count : Nat} (h : count ≤ size s) :
    (decode? ((encode s).take count)).isSome = String.Pos.Raw.isValid s ⟨count⟩ := by
  have hfront : (⟨((encode s).take count).toArray⟩ : ByteArray) =
      s.toByteArray.extract 0 count := by
    apply ByteArray.ext
    apply Array.ext'
    simp [encode]
  have hle : (⟨count⟩ : String.Pos.Raw) ≤ s.rawEndPos := h
  rw [decode?, hfront, Bool.eq_iff_iff, String.Pos.Raw.isValid_eq_true_iff,
    String.Pos.Raw.isValid_iff_isValidUTF8_extract_zero, String.fromUTF8?]
  simp only [hle, true_and]
  by_cases hvalid : (s.toByteArray.extract 0 count).IsValidUTF8 <;> simp [hvalid]

/-- A count in front of more entries than it says is believed. -/
theorem Input.count_toBytes_mod {n width : Nat} {rest : List UInt8} (h : n * width ≤ rest.length)
    (offset : Nat) :
    (⟨LittleEndian.toBytes 4 n ++ rest, offset⟩ : Input).count width =
      .ok (n % UInt32.size, ⟨rest, offset + 4⟩) := by
  have hmod : n % UInt32.size < UInt32.size := Nat.mod_lt _ (by decide)
  have hfew : n % UInt32.size * width ≤ rest.length :=
    (Nat.mul_le_mul_right width (Nat.mod_le n _)).trans h
  rw [← LittleEndian.toBytes_mod]
  exact count_toBytes hmod hfew offset

namespace Value

variable {node n : NodeId} {v : Value} {bytes : List UInt8}

/-! ## The front of a container -/

/-- Items are written in two parts. -/
theorem wireItems_append (front back : List Value) :
    wireItems (front ++ back) = wireItems front ++ wireItems back := by
  induction front with
  | nil => rfl
  | cons v front ih => rw [List.cons_append, wireItems, wireItems, ih, List.append_assoc]

/-- Entries are written in two parts. -/
theorem wireEntries_append (front back : List (String × Value)) :
    wireEntries (front ++ back) = wireEntries front ++ wireEntries back := by
  induction front with
  | nil => rfl
  | cons entry front ih =>
    rw [List.cons_append, wireEntries, wireEntries, ih, List.append_assoc, List.append_assoc]

/-- The first items of a sequence nest no deeper, and are as orderly as all are. -/
theorem items_take {items : List Value} (hordered : ItemsOrdered items) (hfits : ItemsFit items)
    (count : Nat) : itemLevels (items.take count) ≤ itemLevels items ∧
      ItemsOrdered (items.take count) ∧ ItemsFit (items.take count) := by
  induction items generalizing count with
  | nil => simp [ItemsOrdered, ItemsFit]
  | cons v items ih =>
    cases count with
    | zero => simp [itemLevels, ItemsOrdered, ItemsFit]
    | succ count =>
      rw [ItemsOrdered] at hordered
      rw [ItemsFit] at hfits
      obtain ⟨hlevels, hothers, hrest⟩ := ih hordered.2 hfits.2 count
      rw [List.take_succ_cons, itemLevels, itemLevels, ItemsOrdered, ItemsFit]
      exact ⟨max_le_max_left _ hlevels, ⟨hordered.1, hothers⟩, hfits.1, hrest⟩

/-- The first of some entries are ordered, fit and nest no deeper. -/
theorem entries_take {entries : List (String × Value)} {last : Option String}
    (hordered : EntriesOrdered last entries) (hfits : EntriesFit entries) (count : Nat) :
    entryLevels (entries.take count) ≤ entryLevels entries ∧
      EntriesOrdered last (entries.take count) ∧ EntriesFit (entries.take count) := by
  induction entries generalizing last count with
  | nil => simp [EntriesOrdered, EntriesFit]
  | cons entry entries ih =>
    obtain ⟨key, v⟩ := entry
    cases count with
    | zero => simp [entryLevels, EntriesOrdered, EntriesFit]
    | succ count =>
      rw [EntriesOrdered] at hordered
      rw [EntriesFit] at hfits
      obtain ⟨hkey, hv, hrest⟩ := hordered
      obtain ⟨hlevels, hothers, hothersFit⟩ := ih hrest hfits.2.2 count
      rw [List.take_succ_cons, entryLevels, entryLevels, EntriesOrdered, EntriesFit]
      exact ⟨max_le_max_left _ hlevels, ⟨hkey, hv, hothers⟩, hfits.1, hfits.2.1, hothersFit⟩

/-! ## What is left over -/

/-- A value that is read while bytes stand behind it is not all of the input. -/
theorem decode_leftOver {back : List UInt8} {used : Nat}
    (hread : Input.value node (nestingLimit + 1) ⟨bytes, 0⟩ = .ok (v, ⟨back, used⟩))
    (hback : back ≠ []) : decode node bytes = .error (.bytesLeftOver back.length) := by
  obtain ⟨front, ⟨hbytes, hused⟩, -⟩ := faithful_value node _ hread
  have hlength : bytes.length = used + back.length := by
    simp only [Nat.zero_add] at hused
    rw [hused, ← List.length_append]
    exact congrArg List.length hbytes
  have hpositive := List.length_pos_iff.2 hback
  have hshort : used < bytes.length := by omega
  have hrest : bytes.length - used = back.length := by omega
  unfold decode decodeFront
  simp only [hread, bind, Except.bind, pure, Except.pure, hshort, if_true, hrest]
  rfl

/-- What comes of reading a text that is too long: its length is believed to be the low part of what
it is, and the text ends there, or in the middle of a character. -/
def longTextFault (s : String) : Fault :=
  let believed := Utf8.size s % UInt32.size
  if String.Pos.Raw.isValid s ⟨believed⟩ then .bytesLeftOver (Utf8.size s - believed)
  else .textNotUtf8 5

/-- Of a text that is too long, only so many bytes are read as the low part of its length says. -/
theorem decode_text_long {s : String} (hlong : UInt32.size ≤ Utf8.size s) :
    decode node (text n s).wire = .error (longTextFault s) := by
  have hmod : Utf8.size s % UInt32.size < UInt32.size := Nat.mod_lt _ (by decide)
  have hle : Utf8.size s % UInt32.size ≤ Utf8.size s := Nat.mod_le _ _
  have hlength : ((Utf8.encode s).take (Utf8.size s % UInt32.size)).length =
      Utf8.size s % UInt32.size := by
    rw [List.length_take, Utf8.length_encode, Nat.min_eq_left hle]
  -- the length is read as what was written of it, and so many bytes are taken behind it
  have hnumber := @Input.number_toBytes 4 _ hmod (Utf8.encode s) 1
  have hwritten : LittleEndian.toBytes 4 (Utf8.size s % UInt32.size) =
      LittleEndian.toBytes 4 (Utf8.size s) := LittleEndian.toBytes_mod 4 _
  have htake := Input.take_append ((Utf8.encode s).take (Utf8.size s % UInt32.size))
    ((Utf8.encode s).drop (Utf8.size s % UInt32.size)) 5
  rw [hwritten] at hnumber
  rw [List.take_append_drop, hlength] at htake
  have hvalid := Utf8.isSome_decode?_take hle
  unfold longTextFault
  simp only [← hvalid]
  cases hdecoded : Utf8.decode? ((Utf8.encode s).take (Utf8.size s % UInt32.size)) with
  | some t =>
    have hread : Input.value node (nestingLimit + 1) ⟨(text n s).wire, 0⟩ =
        .ok (text node t, ⟨(Utf8.encode s).drop (Utf8.size s % UInt32.size),
          5 + Utf8.size s % UInt32.size⟩) := by
      simp only [wire, wireText, Input.value, Input.number_byte, bind, Except.bind,
        UInt8.ofNat_toNat, Kind.ofByte?_byte, Input.text, hnumber, htake, hdecoded, pure,
        Except.pure, Nat.zero_add, Nat.add_zero]
    have hback : ((Utf8.encode s).drop (Utf8.size s % UInt32.size)).length =
        Utf8.size s - Utf8.size s % UInt32.size := by
      rw [List.length_drop, Utf8.length_encode]
    rw [Option.isSome_some, if_pos rfl, ← hback]
    apply decode_leftOver hread
    apply List.ne_nil_of_length_pos
    omega
  | none =>
    rw [Option.isSome_none, if_neg Bool.false_ne_true]
    unfold decode decodeFront
    simp only [wire, wireText, Input.value, Input.number_byte, bind, Except.bind,
      UInt8.ofNat_toNat, Kind.ofByte?_byte, Input.text, hnumber, htake, hdecoded, Nat.zero_add]
    rfl

/-- Of a sequence that is too long, all items are left over but those that its count without the
high part tells of. -/
theorem decode_seq_long {kind : SeqKind} {items : List Value}
    (hlevels : itemLevels items ≤ nestingLimit) (hordered : ItemsOrdered items)
    (hfits : ItemsFit items) (hlong : UInt32.size ≤ items.length) :
    decode node (seq kind n items).wire =
      .error (.bytesLeftOver (wireItems (items.drop (items.length % UInt32.size))).length) := by
  have hmod : items.length % UInt32.size < UInt32.size := Nat.mod_lt _ (by decide)
  obtain ⟨hfront, horderedFront, hfitsFront⟩ :=
    items_take hordered hfits (items.length % UInt32.size)
  obtain ⟨ws, hitems, -⟩ := items_wireItems node _ (hfront.trans hlevels) horderedFront hfitsFront
    (wireItems (items.drop (items.length % UInt32.size))) (1 + 4)
  rw [← wireItems_append, List.take_append_drop, List.length_take,
    Nat.min_eq_left (Nat.mod_le _ _)] at hitems
  have hmany : items.length * 1 ≤ (wireItems items).length := by
    have hle := length_le_wireItems items
    omega
  have hcount := Input.count_toBytes_mod hmany 1
  have hread : Input.value node (nestingLimit + 1) ⟨(seq kind n items).wire, 0⟩ =
      .ok (seq kind node ws, ⟨wireItems (items.drop (items.length % UInt32.size)),
        1 + 4 + (wireItems (items.take (items.length % UInt32.size))).length⟩) := by
    simp only [wire, Input.value, Input.number_byte, bind, Except.bind, UInt8.ofNat_toNat,
      Kind.ofByte?_byte, hcount, hitems, pure, Except.pure, Nat.zero_add, Nat.add_zero]
  have hmore := length_le_wireItems (items.drop (items.length % UInt32.size))
  rw [List.length_drop] at hmore
  apply decode_leftOver hread
  apply List.ne_nil_of_length_pos
  omega

/-- Of a keyed container with too many entries, all entries are left over but those that its count
without the high part tells of. -/
theorem decode_dict_long {kind : DictKind} {entries : List (String × Value)}
    (hlevels : entryLevels entries ≤ nestingLimit) (hordered : EntriesOrdered none entries)
    (hfits : EntriesFit entries) (hlong : UInt32.size ≤ entries.length) :
    decode node (dict kind n entries).wire = .error
      (.bytesLeftOver (wireEntries (entries.drop (entries.length % UInt32.size))).length) := by
  have hmod : entries.length % UInt32.size < UInt32.size := Nat.mod_lt _ (by decide)
  obtain ⟨hfront, horderedFront, hfitsFront⟩ :=
    entries_take hordered hfits (entries.length % UInt32.size)
  obtain ⟨ws, hentries, -⟩ := entries_wireEntries node _ (hfront.trans hlevels) horderedFront
    hfitsFront (wireEntries (entries.drop (entries.length % UInt32.size))) (1 + 4)
  rw [← wireEntries_append, List.take_append_drop, List.length_take,
    Nat.min_eq_left (Nat.mod_le _ _)] at hentries
  have hcount := Input.count_toBytes_mod (length_le_wireEntries entries) 1
  have hread : Input.value node (nestingLimit + 1) ⟨(dict kind n entries).wire, 0⟩ =
      .ok (dict kind node ws, ⟨wireEntries (entries.drop (entries.length % UInt32.size)),
        1 + 4 + (wireEntries (entries.take (entries.length % UInt32.size))).length⟩) := by
    simp only [wire, Input.value, Input.number_byte, bind, Except.bind, UInt8.ofNat_toNat,
      Kind.ofByte?_byte, hcount, hentries, pure, Except.pure, Nat.zero_add, Nat.add_zero]
  have hmore := length_le_wireEntries (entries.drop (entries.length % UInt32.size))
  rw [List.length_drop] at hmore
  apply decode_leftOver hread
  apply List.ne_nil_of_length_pos
  omega

/-! ## What is read back -/

mutual

/-- Whether lengths and counts fit is a matter of the content. -/
theorem fits_content (v : Value) : v.content.Fits ↔ v.Fits := by
  cases v with
  | seq kind node items =>
    rw [content, Fits, Fits, length_itemContents, itemsFit_itemContents items]
  | dict kind node entries =>
    rw [content, Fits, Fits, length_entryContents, entriesFit_entryContents entries]
  | _ => rfl

/-- Items fit when their contents do. -/
theorem itemsFit_itemContents (items : List Value) :
    ItemsFit (itemContents items) ↔ ItemsFit items := by
  cases items with
  | nil => rfl
  | cons v items =>
    rw [itemContents, ItemsFit, ItemsFit, fits_content v, itemsFit_itemContents items]

/-- Entries fit when their contents do. -/
theorem entriesFit_entryContents (entries : List (String × Value)) :
    EntriesFit (entryContents entries) ↔ EntriesFit entries := by
  cases entries with
  | nil => rfl
  | cons entry entries =>
    obtain ⟨key, v⟩ := entry
    rw [entryContents, EntriesFit, EntriesFit, fits_content v, entriesFit_entryContents entries]

end

/-- Every value that was read fits. -/
theorem fits_of_decode (h : decode node bytes = .ok v) : v.Fits :=
  (readFrom_of_decodeFront (decodeFront_of_decode h)).2.2.fits

/-- All lengths and counts inside a value fit, those of its keys included, but perhaps its own. -/
def PartsFit : Value → Prop
  | seq _ _ items => ItemsFit items
  | dict _ _ entries => EntriesFit entries
  | _ => True

/-- A value whose own length or count alone does not fit is refused. -/
theorem refused_of_partsFit (hlevels : v.levels ≤ nestingLimit) (hordered : v.Ordered)
    (hparts : v.PartsFit) (hfits : ¬v.Fits) : ∃ fault, decode node v.wire = .error fault := by
  cases v with
  | text n s => exact ⟨_, decode_text_long (Nat.not_lt.1 hfits)⟩
  | seq kind n items =>
    rw [Fits, not_and'] at hfits
    rw [levels] at hlevels
    rw [Ordered] at hordered
    exact ⟨_, decode_seq_long hlevels hordered hparts (Nat.not_lt.1 (hfits hparts))⟩
  | dict kind n entries =>
    rw [Fits, not_and'] at hfits
    rw [levels] at hlevels
    rw [Ordered] at hordered
    exact ⟨_, decode_dict_long hlevels hordered hparts (Nat.not_lt.1 (hfits hparts))⟩
  | _ => exact absurd trivial hfits

/-- A text of characters that take one byte each. -/
theorem size_ofList {characters : List Char} (h : ∀ c ∈ characters, c.utf8Size = 1) :
    Utf8.size (String.ofList characters) = characters.length := by
  unfold Utf8.size
  induction characters with
  | nil => rfl
  | cons c characters ih =>
    rw [List.forall_mem_cons] at h
    have hsplit : String.ofList (c :: characters) =
        String.singleton c ++ String.ofList characters := by
      rw [String.singleton_eq_ofList, ← String.ofList_append, List.singleton_append]
    rw [hsplit, String.utf8ByteSize_append, String.utf8ByteSize_singleton, h.1, ih h.2,
      List.length_cons, Nat.add_comm]

/-- A value that is written is read back when all its lengths and counts fit, and only then. When
it is only its own length or count that does not fit, nothing at all is read. -/
theorem decode_encode_iff (hordered : v.Ordered) (h : v.encode = .ok bytes) (node : NodeId) :
    ((∃ w, decode node bytes = .ok w ∧ w.content = v.content) ↔ v.Fits) ∧
      (v.PartsFit → ((∃ w, decode node bytes = .ok w) ↔ v.Fits)) := by
  obtain ⟨length, hmeasure, hbytes⟩ := exists_of_bind h
  obtain rfl := Except.ok.inj hbytes
  have hlevels := (of_measure v hmeasure).2
  rw [Nat.zero_add] at hlevels
  have hback : v.Fits → ∃ w, decode node v.wire = .ok w ∧ w.content = v.content := fun hfits =>
    decode_wire hmeasure hordered hfits node
  refine ⟨⟨?_, hback⟩, fun hparts => ⟨?_, fun hfits => (hback hfits).imp fun _ hw => hw.1⟩⟩
  · rintro ⟨w, hw, hcontent⟩
    rw [← fits_content, ← hcontent, fits_content]
    exact fits_of_decode hw
  · rintro ⟨w, hw⟩
    by_contra hfits
    obtain ⟨fault, hrefused⟩ := refused_of_partsFit hlevels hordered hparts hfits
    rw [hrefused] at hw
    cases hw

/-- A text of 2^32 bytes is written, and refused when it is read. -/
theorem decode_encode_iff_long :
    let s := String.ofList (List.replicate 4294967296 'a')
    ∃ bytes, (text 0 s).encode = .ok bytes ∧ ¬∃ w, decode 0 bytes = .ok w := by
  intro s
  have hlength : Utf8.size s = 4294967296 := by
    rw [← List.length_replicate (n := 4294967296) (a := 'a')]
    exact size_ofList fun c hc => by rw [List.eq_of_mem_replicate hc]; rfl
  have hlong : ¬(text 0 s).Fits := by
    rw [Fits, hlength]
    decide
  refine ⟨_, rfl, fun hread => hlong ?_⟩
  exact ((decode_encode_iff (v := text 0 s) trivial rfl 0).2 trivial).1 hread

end Value
end SharedExchange
