import Mathlib.Tactic
import SharedExchange.Proofs.Wire.Measure

/-! # What is read was written

Reading accepts the wire form of a value and nothing else, but for one freedom: a boolean is false
when its byte is zero and true when it is anything else, and writing takes one for true. `marks`
says which bytes of a wire form are the payloads of booleans, and `settled` writes one for each of
them that is not zero. What was read is, once settled, the wire form of the value
(`encode_of_decodeFront`), so no value has two spellings whose booleans are zeros and ones.

Every way of reading is taken by itself first: what it took off the front of the input is what the
corresponding way of writing puts there. -/

namespace SharedExchange

/-! ## What was taken off an input -/

namespace Input

/-- `rest` is what is left of an input when `front` has been taken off it. -/
structure Consumed (input rest : Input) (front : List UInt8) : Prop where
  rest_eq : input.rest = front ++ rest.rest
  offset_eq : rest.offset = input.offset + front.length

variable {input middle rest : Input} {front back : List UInt8} {n width : Nat}

/-- Nothing is taken off an input by taking nothing. -/
theorem Consumed.refl (input : Input) : Consumed input input [] := ⟨rfl, rfl⟩

/-- What is taken in two parts is taken together. -/
theorem Consumed.trans (h : Consumed input middle front) (h' : Consumed middle rest back) :
    Consumed input rest (front ++ back) := by
  constructor
  · rw [h.rest_eq, h'.rest_eq, List.append_assoc]
  · rw [h'.offset_eq, h.offset_eq, List.length_append, Nat.add_assoc]

/-- As many bytes as were asked for are taken. -/
theorem take_eq_ok {bytes : List UInt8} (h : input.take n = .ok (bytes, rest)) :
    Consumed input rest bytes ∧ bytes.length = n := by
  rw [take] at h
  split at h
  · next hholds =>
    cases h
    have hlength : (input.rest.take n).length = n := by
      rw [List.length_take, Nat.min_eq_left ((input.holds_iff n).1 hholds)]
    exact ⟨⟨(List.take_append_drop n input.rest).symm, by rw [hlength]⟩, hlength⟩
  · cases h

/-- A number is taken with its bytes. -/
theorem number_eq_ok (h : input.number width = .ok (n, rest)) :
    Consumed input rest (LittleEndian.toBytes width n) ∧ n < LittleEndian.bound width := by
  rw [number] at h
  obtain ⟨⟨bytes, left⟩, htake, hread⟩ := Value.exists_of_bind h
  obtain ⟨hconsumed, hlength⟩ := take_eq_ok htake
  cases hread
  subst hlength
  rw [LittleEndian.toBytes_ofBytes]
  exact ⟨hconsumed, LittleEndian.ofBytes_lt bytes⟩

/-- A text is taken with its length and its bytes. -/
theorem text_eq_ok {s : String} (h : input.text = .ok (s, rest)) :
    Consumed input rest (Value.wireText s) ∧ Utf8.size s < UInt32.size := by
  rw [text] at h
  obtain ⟨⟨length, body⟩, hnumber, h⟩ := Value.exists_of_bind h
  obtain ⟨⟨bytes, left⟩, htake, h⟩ := Value.exists_of_bind h
  obtain ⟨hfirst, hbound⟩ := number_eq_ok hnumber
  obtain ⟨hsecond, hlength⟩ := take_eq_ok htake
  cases hdecode : Utf8.decode? bytes with
  | none =>
    simp only [hdecode] at h
    cases h
  | some t =>
    simp only [hdecode] at h
    cases h
    -- the bytes are those of the text, so their number is the length in front of them
    have hencode := Utf8.encode_of_decode? hdecode
    have hsize : Utf8.size s = length := by
      rw [← Utf8.length_encode, hencode, hlength]
    rw [Value.wireText, hsize, hencode]
    exact ⟨hfirst.trans hsecond, hbound⟩

/-- A count is taken with its four bytes. -/
theorem count_eq_ok (h : input.count width = .ok (n, rest)) :
    Consumed input rest (LittleEndian.toBytes 4 n) ∧ n < UInt32.size := by
  rw [count] at h
  obtain ⟨⟨k, left⟩, hnumber, h⟩ := Value.exists_of_bind h
  simp only at h
  split at h
  · cases h
    exact number_eq_ok hnumber
  · cases h

/-- Words are taken with four bytes each. -/
theorem words_eq_ok {words : Vector UInt32 n} (h : input.words n = .ok (words, rest)) :
    Consumed input rest
      (words.toList.flatMap fun word => LittleEndian.toBytes 4 word.toNat) := by
  induction n generalizing rest with
  | zero =>
    cases h
    exact Consumed.refl input
  | succ n ih =>
    rw [Input.words] at h
    obtain ⟨⟨first, left⟩, hfirst, h⟩ := Value.exists_of_bind h
    obtain ⟨⟨last, left'⟩, hlast, h⟩ := Value.exists_of_bind h
    cases h
    obtain ⟨hconsumed, hbound⟩ := number_eq_ok hlast
    have hword : (UInt32.ofNat last).toNat = last := UInt32.toNat_ofNat_of_lt' hbound
    rw [Vector.toList_push, List.flatMap_append, List.flatMap_singleton, hword]
    exact (ih hfirst).trans hconsumed

/-- A key that passes comes after the one before it, if there is one. -/
theorem checkKey_eq_ok {last : Option String} {key : String} (h : checkKey last key = .ok ()) :
    ∀ earlier ∈ last, Utf8.order earlier key = .lt := by
  rintro earlier ⟨⟩
  rw [checkKey] at h
  cases horder : Utf8.order earlier key with
  | lt => rfl
  | eq | gt =>
    simp only [horder] at h
    cases h

end Input

namespace Value

/-! ## The payloads of booleans -/

mutual

/-- Which bytes of the wire form are the payloads of booleans. -/
def marks : Value → List Bool
  | bool _ => [false, true]
  | seq _ _ items => List.replicate 5 false ++ itemMarks items
  | dict _ _ entries => List.replicate 5 false ++ entryMarks entries
  | v => List.replicate v.scalarLength false

/-- The marks of items, one after the other. -/
def itemMarks : List Value → List Bool
  | [] => []
  | v :: items => v.marks ++ itemMarks items

/-- The marks of entries; there are none in their keys. -/
def entryMarks : List (String × Value) → List Bool
  | [] => []
  | (key, v) :: entries =>
    List.replicate (4 + Utf8.size key) false ++ (v.marks ++ entryMarks entries)

end

/-- The bytes with one in place of every marked byte that is not zero. -/
def settled (marks : List Bool) (bytes : List UInt8) : List UInt8 :=
  List.zipWith (fun marked b => if marked = true ∧ b ≠ 0 then 1 else b) marks bytes

/-- The bytes are, once settled, a wire form with these marks. -/
structure Spells (bytes : List UInt8) (marks : List Bool) (wire : List UInt8) : Prop where
  length_eq : bytes.length = marks.length
  settled_eq : settled marks bytes = wire

variable {bytes bytes' wire wire' : List UInt8} {marks marks' : List Bool}

/-- What is spelled in two parts is spelled together. -/
theorem Spells.append (h : Spells bytes marks wire) (h' : Spells bytes' marks' wire') :
    Spells (bytes ++ bytes') (marks ++ marks') (wire ++ wire') := by
  constructor
  · rw [List.length_append, List.length_append, h.length_eq, h'.length_eq]
  · rw [settled, List.zipWith_append h.length_eq.symm]
    exact congrArg₂ (· ++ ·) h.settled_eq h'.settled_eq

/-- Bytes without a mark spell themselves. -/
theorem spells_unmarked {n : Nat} (h : bytes.length = n) :
    Spells bytes (List.replicate n false) bytes := by
  constructor
  · rw [h, List.length_replicate]
  · subst h
    induction bytes with
    | nil => rfl
    | cons b bytes ih =>
      rw [List.length_cons, List.replicate_succ, settled, List.zipWith_cons_cons]
      exact congrArg₂ List.cons (if_neg (by simp)) ih

/-- What spells a wire form is as long as that. -/
theorem Spells.length_wire (h : Spells bytes marks wire) : bytes.length = wire.length := by
  rw [← h.settled_eq, settled, List.length_zipWith, ← h.length_eq, Nat.min_self]

/-- All marked bytes are zeros and ones. -/
def BitsMarked (marks : List Bool) (bytes : List UInt8) : Prop :=
  ∀ i : Nat, marks[i]? = some true → bytes[i]? = some 0 ∨ bytes[i]? = some 1

/-- Marked bytes that are zeros and ones are settled already. -/
theorem Spells.eq_of_bits (h : Spells bytes marks wire) (hbits : BitsMarked marks bytes) :
    bytes = wire := by
  rw [← h.settled_eq, settled]
  refine List.ext_getElem ?_ fun i hi hi' => ?_
  · rw [List.length_zipWith, ← h.length_eq, Nat.min_self]
  · have hmark : i < marks.length := by
      rw [← h.length_eq]
      exact hi
    rw [List.getElem_zipWith]
    split
    · next hcase =>
      obtain ⟨hmarked, hne⟩ := hcase
      have hbit := hbits i (by rw [List.getElem?_eq_getElem hmark, hmarked])
      rw [List.getElem?_eq_getElem hi, Option.some_inj, Option.some_inj] at hbit
      exact hbit.resolve_left hne
    · rfl

/-! ## What is read -/

open Input

/-- A value that was read from `front`, with fewer than `levels` levels. -/
structure ReadFrom (front : List UInt8) (v : Value) (levels : Nat) : Prop where
  spells : Spells front v.marks v.wire
  levels_lt : v.levels < levels
  ordered : v.Ordered
  fits : v.Fits

/-- Reading one value takes what spells it off the input. -/
def Faithful (levels : Nat) (read : Input → Except Fault (Value × Input)) : Prop :=
  ∀ {input rest v}, read input = .ok (v, rest) →
    ∃ front, Consumed input rest front ∧ ReadFrom front v levels

variable {levels n : Nat} {read : Input → Except Fault (Value × Input)} {input rest : Input}

/-- Items that are read one after the other spell one after the other. -/
theorem Faithful.items (hread : Faithful levels read) {vs : List Value}
    (h : Input.items read n input = .ok (vs, rest)) :
    vs.length = n ∧ itemLevels vs ≤ levels ∧ ItemsOrdered vs ∧ ItemsFit vs ∧
      ∃ front, Consumed input rest front ∧ Spells front (itemMarks vs) (wireItems vs) := by
  induction n generalizing input vs with
  | zero =>
    cases h
    exact ⟨rfl, Nat.zero_le _, trivial, trivial, [], Consumed.refl _, rfl, rfl⟩
  | succ n ih =>
    rw [Input.items] at h
    obtain ⟨⟨v, middle⟩, hv, h⟩ := exists_of_bind h
    obtain ⟨⟨others, last⟩, hothers, h⟩ := exists_of_bind h
    cases h
    obtain ⟨front, hconsumed, hfront⟩ := hread hv
    obtain ⟨hlength, hlevels, hordered, hfits, back, hconsumed', hback⟩ := ih hothers
    refine ⟨congrArg (· + 1) hlength, ?_, ?_, ?_, front ++ back, hconsumed.trans hconsumed', ?_⟩
    · have hfirst := hfront.levels_lt
      rw [itemLevels]
      omega
    · rw [ItemsOrdered]
      exact ⟨hfront.ordered, hordered⟩
    · rw [ItemsFit]
      exact ⟨hfront.fits, hfits⟩
    · rw [itemMarks, wireItems]
      exact hfront.spells.append hback

/-- Entries that are read one after the other spell one after the other, and their keys ascend. -/
theorem Faithful.entries (hread : Faithful levels read) {last : Option String}
    {vs : List (String × Value)} (h : Input.entries read n last input = .ok (vs, rest)) :
    vs.length = n ∧ entryLevels vs ≤ levels ∧ EntriesOrdered last vs ∧ EntriesFit vs ∧
      ∃ front, Consumed input rest front ∧ Spells front (entryMarks vs) (wireEntries vs) := by
  induction n generalizing input last vs with
  | zero =>
    cases h
    exact ⟨rfl, Nat.zero_le _, trivial, trivial, [], Consumed.refl _, rfl, rfl⟩
  | succ n ih =>
    rw [Input.entries] at h
    obtain ⟨⟨key, first⟩, hkey, h⟩ := exists_of_bind h
    obtain ⟨⟨⟩, hcheck, h⟩ := exists_of_bind h
    obtain ⟨⟨v, middle⟩, hv, h⟩ := exists_of_bind h
    obtain ⟨⟨others, end'⟩, hothers, h⟩ := exists_of_bind h
    cases h
    obtain ⟨hconsumedKey, hsize⟩ := text_eq_ok hkey
    obtain ⟨front, hconsumed, hfront⟩ := hread hv
    obtain ⟨hlength, hlevels, hordered, hfits, back, hconsumed', hback⟩ := ih hothers
    refine ⟨congrArg (· + 1) hlength, ?_, ?_, ?_, wireText key ++ (front ++ back),
      hconsumedKey.trans (hconsumed.trans hconsumed'), ?_⟩
    · have hfirst := hfront.levels_lt
      rw [entryLevels]
      omega
    · rw [EntriesOrdered]
      exact ⟨checkKey_eq_ok hcheck, hfront.ordered, hordered⟩
    · rw [EntriesFit]
      exact ⟨hsize, hfront.fits, hfits⟩
    · rw [entryMarks, wireEntries]
      exact (spells_unmarked (length_wireText key)).append (hfront.spells.append hback)

/-- A value without children and without a boolean was read from its wire form. -/
theorem readFrom_scalar (v : Value) (hlength : v.wireLength = v.scalarLength)
    (hmarks : v.marks = List.replicate v.scalarLength false) (hlevels : v.levels = 0)
    (hordered : v.Ordered) (hfits : v.Fits) : ReadFrom v.wire v (levels + 1) := by
  refine ⟨?_, by omega, hordered, hfits⟩
  rw [hmarks]
  exact spells_unmarked (v.length_wire.trans hlength)

/-- The byte of a kind and a count, in front of what the container holds. -/
theorem Spells.container (kind : Kind) (count : Nat) (h : Spells bytes marks wire) :
    Spells ([kind.byte] ++ (LittleEndian.toBytes 4 count ++ bytes))
      (List.replicate 5 false ++ marks) (kind.byte :: (LittleEndian.toBytes 4 count ++ wire)) := by
  have hfront : (kind.byte :: LittleEndian.toBytes 4 count).length = 5 := by
    rw [List.length_cons, LittleEndian.length_toBytes]
  exact (spells_unmarked hfront).append h

/-- A boolean was read from any byte. -/
theorem readFrom_bool (hn : n < LittleEndian.bound 1) :
    ReadFrom ([Kind.bool.byte] ++ LittleEndian.toBytes 1 n) (.bool (n != 0)) (levels + 1) := by
  refine ⟨⟨rfl, ?_⟩, Nat.succ_pos levels, trivial, trivial⟩
  -- the one byte of the payload is zero exactly when the number is
  have hone : n < 256 := hn
  have hzero : UInt8.ofNat n = 0 ↔ n = 0 := by
    rw [← UInt8.toNat_inj, UInt8.toNat_ofNat_of_lt' hone]
    rfl
  by_cases hn : n = 0
  · subst hn
    rfl
  · have hne : UInt8.ofNat n ≠ 0 := fun heq => hn (hzero.1 heq)
    simp [settled, marks, wire, LittleEndian.toBytes, hne, hn]

/-- An integer was read from a number of its width. -/
theorem readFrom_integer (kind : IntegerKind) (hn : n < LittleEndian.bound kind.bytes) :
    ReadFrom ([(Kind.integer kind).byte] ++ LittleEndian.toBytes kind.bytes n)
      (.integer kind (BitVec.ofNat _ n)) (levels + 1) := by
  have hbits : (BitVec.ofNat kind.width n).toNat = n := by
    rw [bound_bytes] at hn
    rw [BitVec.toNat_ofNat, Nat.mod_eq_of_lt hn]
  have hread : ReadFrom _ _ (levels + 1) :=
    readFrom_scalar (.integer kind (BitVec.ofNat _ n)) rfl rfl rfl trivial trivial
  rwa [wire, hbits] at hread

/-- A float was read from a number of four bytes. -/
theorem readFrom_float32 (hn : n < LittleEndian.bound 4) :
    ReadFrom ([Kind.float32.byte] ++ LittleEndian.toBytes 4 n) (.float32 (UInt32.ofNat n))
      (levels + 1) := by
  have hread : ReadFrom _ _ (levels + 1) :=
    readFrom_scalar (.float32 (UInt32.ofNat n)) rfl rfl rfl trivial trivial
  rwa [wire, UInt32.toNat_ofNat_of_lt' hn] at hread

/-- A double was read from a number of eight bytes. -/
theorem readFrom_float64 (hn : n < LittleEndian.bound 8) :
    ReadFrom ([Kind.float64.byte] ++ LittleEndian.toBytes 8 n) (.float64 (UInt64.ofNat n))
      (levels + 1) := by
  have hread : ReadFrom _ _ (levels + 1) :=
    readFrom_scalar (.float64 (UInt64.ofNat n)) rfl rfl rfl trivial trivial
  rwa [wire, UInt64.toNat_ofNat_of_lt' hn] at hread

/-- A sequence was read from the number of its items and what its items spell. -/
theorem readFrom_seq (kind : SeqKind) (node : NodeId) {vs : List Value}
    (hlevels : itemLevels vs ≤ levels) (hordered : ItemsOrdered vs)
    (hfits : vs.length < UInt32.size ∧ ItemsFit vs)
    (hspells : Spells bytes (itemMarks vs) (wireItems vs)) :
    ReadFrom ([(Kind.seq kind).byte] ++ (LittleEndian.toBytes 4 vs.length ++ bytes))
      (.seq kind node vs) (levels + 1) := by
  constructor
  case spells =>
    rw [marks, wire]
    exact hspells.container (.seq kind) vs.length
  case levels_lt =>
    rw [Value.levels]
    exact Nat.lt_succ_of_le hlevels
  case ordered =>
    rw [Ordered]
    exact hordered
  case fits =>
    rw [Fits]
    exact hfits

/-- A keyed container was read from the number of its entries and what its entries spell. -/
theorem readFrom_dict (kind : DictKind) (node : NodeId) {vs : List (String × Value)}
    (hlevels : entryLevels vs ≤ levels) (hordered : EntriesOrdered none vs)
    (hfits : vs.length < UInt32.size ∧ EntriesFit vs)
    (hspells : Spells bytes (entryMarks vs) (wireEntries vs)) :
    ReadFrom ([(Kind.dict kind).byte] ++ (LittleEndian.toBytes 4 vs.length ++ bytes))
      (.dict kind node vs) (levels + 1) := by
  constructor
  case spells =>
    rw [marks, wire]
    exact hspells.container (.dict kind) vs.length
  case levels_lt =>
    rw [Value.levels]
    exact Nat.lt_succ_of_le hlevels
  case ordered =>
    rw [Ordered]
    exact hordered
  case fits =>
    rw [Fits]
    exact hfits

/-- Reading takes a value that spells what was taken, with no more levels than it may have. -/
theorem faithful_value (node : NodeId) (levels : Nat) :
    Faithful levels (Input.value node levels) := by
  induction levels with
  | zero =>
    intro input rest v h
    cases h
  | succ levels ih =>
    intro input rest v h
    rw [Input.value] at h
    obtain ⟨⟨byte, body⟩, hbyte, h⟩ := exists_of_bind h
    obtain ⟨htag, -⟩ := number_eq_ok hbyte
    simp only at h
    cases hkind : Kind.ofByte? (UInt8.ofNat byte) with
    | none =>
      rw [hkind] at h
      cases h
    | some kind =>
      -- the first byte is the one that stands for the kind
      have hfront : LittleEndian.toBytes 1 byte = [kind.byte] := by
        rw [Kind.byte_of_ofByte? hkind]
        rfl
      rw [hfront] at htag
      rw [hkind] at h
      cases kind with
      | null =>
        cases h
        exact ⟨_, htag, readFrom_scalar .null rfl rfl rfl trivial trivial⟩
      | bool =>
        obtain ⟨⟨n, left⟩, hn, h⟩ := exists_of_bind h
        cases h
        obtain ⟨hpayload, hbound⟩ := number_eq_ok hn
        exact ⟨_, htag.trans hpayload, readFrom_bool hbound⟩
      | integer k =>
        obtain ⟨⟨n, left⟩, hn, h⟩ := exists_of_bind h
        cases h
        obtain ⟨hpayload, hbound⟩ := number_eq_ok hn
        exact ⟨_, htag.trans hpayload, readFrom_integer k hbound⟩
      | float32 =>
        obtain ⟨⟨n, left⟩, hn, h⟩ := exists_of_bind h
        cases h
        obtain ⟨hpayload, hbound⟩ := number_eq_ok hn
        exact ⟨_, htag.trans hpayload, readFrom_float32 hbound⟩
      | float64 =>
        obtain ⟨⟨n, left⟩, hn, h⟩ := exists_of_bind h
        cases h
        obtain ⟨hpayload, hbound⟩ := number_eq_ok hn
        exact ⟨_, htag.trans hpayload, readFrom_float64 hbound⟩
      | floats shape =>
        obtain ⟨⟨components, left⟩, hwords, h⟩ := exists_of_bind h
        cases h
        exact ⟨_, htag.trans (words_eq_ok hwords),
          readFrom_scalar (.floats shape components) rfl rfl rfl trivial trivial⟩
      | text =>
        obtain ⟨⟨s, left⟩, hs, h⟩ := exists_of_bind h
        cases h
        obtain ⟨hpayload, hsize⟩ := text_eq_ok hs
        exact ⟨_, htag.trans hpayload, readFrom_scalar (.text _ s) rfl rfl rfl trivial hsize⟩
      | seq k =>
        obtain ⟨⟨n, first⟩, hcount, h⟩ := exists_of_bind h
        obtain ⟨⟨vs, left⟩, hitems, h⟩ := exists_of_bind h
        cases h
        obtain ⟨hn, hbound⟩ := count_eq_ok hcount
        obtain ⟨rfl, hlevels, hordered, hfits, front, hconsumed, hspells⟩ := ih.items hitems
        exact ⟨_, htag.trans (hn.trans hconsumed),
          readFrom_seq k _ hlevels hordered ⟨hbound, hfits⟩ hspells⟩
      | dict k =>
        obtain ⟨⟨n, first⟩, hcount, h⟩ := exists_of_bind h
        obtain ⟨⟨vs, left⟩, hentries, h⟩ := exists_of_bind h
        cases h
        obtain ⟨hn, hbound⟩ := count_eq_ok hcount
        obtain ⟨rfl, hlevels, hordered, hfits, front, hconsumed, hspells⟩ := ih.entries hentries
        exact ⟨_, htag.trans (hn.trans hconsumed),
          readFrom_dict k _ hlevels hordered ⟨hbound, hfits⟩ hspells⟩

/-! ## The wire form as a whole -/

variable {node : NodeId} {v : Value} {k : Nat}

/-- What a value was read from stands at the front of the input, and it is known where it ends. -/
theorem readFrom_of_decodeFront (h : decodeFront node bytes = .ok (v, k)) :
    k ≤ bytes.length ∧ (bytes.take k).length = k ∧
      ReadFrom (bytes.take k) v (nestingLimit + 1) := by
  rw [decodeFront] at h
  obtain ⟨⟨w, rest⟩, hvalue, h⟩ := exists_of_bind h
  cases h
  obtain ⟨front, ⟨hrest, hoffset⟩, hfront⟩ := faithful_value node _ hvalue
  simp only at hrest hoffset
  rw [Nat.zero_add] at hoffset
  have htake : bytes.take front.length = front := by rw [hrest, List.take_left]
  rw [hoffset, htake]
  refine ⟨?_, rfl, hfront⟩
  rw [hrest, List.length_append]
  exact Nat.le_add_right ..

/-- A value that takes all of an input takes the whole length of it. -/
theorem decodeFront_of_decode (h : decode node bytes = .ok v) :
    decodeFront node bytes = .ok (v, bytes.length) := by
  rw [decode] at h
  obtain ⟨⟨w, used⟩, hfront, h⟩ := exists_of_bind h
  have hle := (readFrom_of_decodeFront hfront).1
  simp only at h
  split at h
  · cases h
  · next hused =>
    cases h
    rw [hfront, Nat.le_antisymm hle (Nat.not_lt.1 hused)]

/-- What was read is written again as the bytes that it was read from, with a one for every boolean
that is not zero. So no other input whose booleans are zeros and ones is read as the same value. -/
theorem encode_of_decodeFront (h : decodeFront node bytes = .ok (v, k)) :
    k ≤ bytes.length ∧ v.levels ≤ nestingLimit ∧ v.Ordered ∧ k = v.wireLength ∧
      v.encode = .ok (settled v.marks (bytes.take k)) ∧
      (settled v.marks (bytes.take k)).length = k ∧
      ∀ node' bytes' w k', decodeFront node' bytes' = .ok (w, k') → w.content = v.content →
        BitsMarked v.marks (bytes.take k) → BitsMarked w.marks (bytes'.take k') →
        k' = k ∧ bytes'.take k' = bytes.take k ∧
          (decode node bytes = .ok v → decode node' bytes' = .ok w → bytes' = bytes) := by
  obtain ⟨hle, htake, hread⟩ := readFrom_of_decodeFront h
  have hsettled := hread.spells.settled_eq
  have hlength := hread.spells.length_wire
  rw [htake] at hlength
  refine ⟨hle, Nat.le_of_lt_succ hread.levels_lt, hread.ordered, ?_, ?_, ?_, ?_⟩
  · rw [hlength, length_wire]
  · rw [hsettled]
    exact encode_eq (Nat.le_of_lt_succ hread.levels_lt)
  · rw [hsettled, ← hlength]
  · intro node' bytes' w k' h' hcontent hbits hbits'
    obtain ⟨-, htake', hread'⟩ := readFrom_of_decodeFront h'
    -- both inputs are settled already, so both are the wire form, which depends on the content
    have hfront : bytes'.take k' = bytes.take k := by
      rw [hread.spells.eq_of_bits hbits, hread'.spells.eq_of_bits hbits', ← wire_content w,
        hcontent, wire_content]
    have hk : k' = k := by rw [← htake', hfront, htake]
    refine ⟨hk, hfront, fun hall hall' => ?_⟩
    have hwhole := decodeFront_of_decode hall
    have hwhole' := decodeFront_of_decode hall'
    rw [h] at hwhole
    rw [h'] at hwhole'
    obtain ⟨-, rfl⟩ := Prod.mk.inj (Except.ok.inj hwhole)
    obtain ⟨-, rfl⟩ := Prod.mk.inj (Except.ok.inj hwhole')
    rwa [List.take_length, List.take_length] at hfront

/-- A boolean whose byte is seven, inside a container and with a byte behind it that is not read. -/
theorem encode_of_decodeFront_seven :
    let bytes : List UInt8 := [0x06, 1, 0, 0, 0, 1, 0, 0, 0, 0x61, 0x04, 7, 9]
    let v : Value := .dict .map 3 [("a", .bool true)]
    decodeFront 3 bytes = .ok (v, 12) ∧
      v.encode = .ok [0x06, 1, 0, 0, 0, 1, 0, 0, 0, 0x61, 0x04, 1] := by
  have h : decodeFront 3 [0x06, 1, 0, 0, 0, 1, 0, 0, 0, 0x61, 0x04, 7, 9] =
      .ok (.dict .map 3 [("a", .bool true)], 12) := by
    rfl
  exact ⟨h, (encode_of_decodeFront h).2.2.2.2.1⟩

end Value
end SharedExchange
