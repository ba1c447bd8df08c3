import Mathlib.Tactic
import SharedExchange.Proofs.Arena.Written
import SharedExchange.Value.Path

/-! # Reading a value in place

`Laid` says that a value stands in an arena from an offset downwards: the bytes of its node, and by
its references every value inside it. From that alone the reading side is explained: the accessors
of a node answer what those of the value answer (`Laid.toInt?_eq` and its neighbours), halving
finds a key exactly when the value has it (`search_rel`), and any path leads to a node that stands
for the value at its end, or to nothing in both (`Stands.reach?_rel`). -/

namespace SharedExchange

namespace Value

/-- What the header of a node says of its length: the children of a container, the bytes of a text,
the components of a float shape. -/
def nodeLength : Value → Nat
  | text _ s => Utf8.size s
  | floats shape _ => shape.size
  | v => v.size

/-- How many references the node of a value has: one for each item, two for each entry. -/
def referenceCount : Value → Nat
  | seq _ _ items => items.length
  | dict _ _ entries => 2 * entries.length
  | _ => 0

/-- The length field of a node is one of 32 bits. -/
theorem nodeLength_lt {v : Value} (h : v.Fits) : v.nodeLength < UInt32.size := by
  cases v with
  | text node s => exact h
  | seq kind node items => exact h.1
  | dict kind node entries => exact h.1
  | floats shape components =>
    have hsize : shape.size < UInt32.size := by cases shape <;> decide
    exact hsize
  | _ => exact (by decide : 0 < UInt32.size)

end Value

namespace IntegerKind

/-- Integers have 64 bits at most. -/
theorem width_le (kind : IntegerKind) : kind.width ≤ 64 := by
  cases kind <;> decide

/-- Widening keeps the number, and a 64-bit word with sign shows it, unless the number has no sign
and takes all 64 bits. -/
theorem signedWord_toWord {kind : IntegerKind} (hkind : kind ≠ .uint64)
    (bits : BitVec kind.width) : Node.signedWord (kind.toWord bits).toNat = kind.toInt bits := by
  have hword : ∀ word : UInt64, Node.signedWord word.toNat = word.toBitVec.toInt := fun word => by
    rw [Node.signedWord, UInt64.toNat, BitVec.ofNat_toNat, BitVec.setWidth_eq]
  rw [hword, toWord, toInt]
  by_cases hsigned : kind.signed = true
  · rw [if_pos hsigned, if_pos hsigned]
    exact BitVec.toInt_signExtend_of_le kind.width_le
  · rw [if_neg hsigned, if_neg hsigned]
    -- what is left takes 32 bits at most
    have hwidth : kind.width ≤ 32 := by
      cases kind with
      | uint64 => exact absurd rfl hkind
      | uint8 | uint16 | uint32 => decide
      | _ => exact absurd rfl hsigned
    have hbits : bits.toNat < 2 ^ 32 := bits.isLt.trans_le (Nat.pow_le_pow_right (by decide) hwidth)
    have hwide : (bits.zeroExtend 64).toNat = bits.toNat :=
      BitVec.toNat_setWidth_of_le kind.width_le
    rw [BitVec.toInt_eq_toNat_of_lt (by rw [hwide]; omega), hwide]

/-- Only numbers without sign that take all 64 bits can be too large for 64 bits with sign. -/
theorem toInt_lt {kind : IntegerKind} (hkind : kind ≠ .uint64) (bits : BitVec kind.width) :
    kind.toInt bits < 0x8000000000000000 := by
  rw [← signedWord_toWord hkind, Node.signedWord]
  have hlt := BitVec.toInt_lt (x := BitVec.ofNat 64 (kind.toWord bits).toNat)
  omega

end IntegerKind

namespace Arena

open Writer (references scalarWord)

/-! ## The node of a value -/

/-- The payload of the node of a value that refers to these nodes. -/
def payloadOf (offsets : List Nat) : Value → List UInt8
  | .null => []
  | .text _ s => Utf8.encode s
  | .seq .. | .dict .. => references offsets
  | .floats _ components =>
    components.toList.flatMap fun component => LittleEndian.toBytes 4 component.toNat
  | v => LittleEndian.toBytes 8 (scalarWord v).toNat

/-- The node at which a value stands. -/
def nodeOf (a : Arena) (offset : Nat) (v : Value) : Node := ⟨a, offset, v.kind, v.nodeLength⟩

section

variable {a : Arena} {offset : Nat} {v : Value} {offsets : List Nat}

/-- The header says how much room the payload takes. -/
theorem payloadRoom_eq (h : offsets.length = v.referenceCount) :
    payloadRoom v.kind v.nodeLength = padded (payloadOf offsets v).length := by
  have hword : ∀ word, padded (LittleEndian.toBytes 8 word).length = 8 := fun word => by
    rw [LittleEndian.length_toBytes]
    rfl
  cases v with
  | null => exact (padded_of_mod rfl).symm
  | text node s => exact congrArg padded (Utf8.length_encode s).symm
  | seq kind node items =>
    rw [payloadOf, padded_references, h]
    rfl
  | dict kind node entries =>
    rw [payloadOf, padded_references, h, Value.referenceCount, ← Nat.mul_assoc]
    rfl
  | floats shape components =>
    refine congrArg padded ?_
    simp [payloadOf, List.length_flatMap, Nat.mul_comm]
  | _ => exact (hword _).symm

/-- The node of a value is found where its bytes stand. -/
theorem Written.nodeOf_eq (h : Written a offset v.kind v.nodeLength (payloadOf offsets v))
    (hfits : v.Fits) (hlength : offsets.length = v.referenceCount) :
    a.node offset = .ok (nodeOf a offset v) := by
  refine h.node_eq (Value.nodeLength_lt hfits) ?_ (payloadRoom_eq hlength)
  cases v with
  | floats shape components => simp [Value.kind, Value.nodeLength, Kind.componentCount?]
  | _ => rfl

end

/-! ## Values that stand in an arena -/

/-- A value stands in an arena at an offset, and everything inside it in front of it. -/
inductive Laid (a : Arena) : Nat → Value → Prop
  | null {offset : Nat} (h : Written a offset .null 0 []) : Laid a offset .null
  | bool {offset : Nat} (b : Bool)
    (h : Written a offset .bool 0 (LittleEndian.toBytes 8 (scalarWord (.bool b)).toNat)) :
    Laid a offset (.bool b)
  | integer {offset : Nat} (kind : IntegerKind) (bits : BitVec kind.width)
    (h : Written a offset (.integer kind) 0
      (LittleEndian.toBytes 8 (scalarWord (.integer kind bits)).toNat)) :
    Laid a offset (.integer kind bits)
  | float32 {offset : Nat} (bits : UInt32)
    (h : Written a offset .float32 0 (LittleEndian.toBytes 8 (scalarWord (.float32 bits)).toNat)) :
    Laid a offset (.float32 bits)
  | float64 {offset : Nat} (bits : UInt64)
    (h : Written a offset .float64 0 (LittleEndian.toBytes 8 (scalarWord (.float64 bits)).toNat)) :
    Laid a offset (.float64 bits)
  | floats {offset : Nat} (shape : Shape) (components : Vector UInt32 shape.size)
    (h : Written a offset (.floats shape) shape.size
      (components.toList.flatMap fun component => LittleEndian.toBytes 4 component.toNat)) :
    Laid a offset (.floats shape components)
  | text {offset : Nat} (node : NodeId) (s : String)
    (h : Written a offset .text (Utf8.size s) (Utf8.encode s)) : Laid a offset (.text node s)
  | seq {offset : Nat} {kind : SeqKind} {node : NodeId} {items : List Value}
    {offsets : List Nat} (h : Written a offset (.seq kind) items.length (references offsets))
    (hbefore : ∀ reference ∈ offsets, reference < offset)
    (hitems : List.Forall₂ (Laid a) offsets items) : Laid a offset (.seq kind node items)
  | dict {offset : Nat} {kind : DictKind} {node : NodeId} {entries : List (String × Value)}
    {pairs : List (Nat × Nat)}
    (h : Written a offset (.dict kind) entries.length (references (pairReferences pairs)))
    (hbefore : ∀ pair ∈ pairs, pair.1 < offset ∧ pair.2 < offset)
    (hkeys : List.Forall₂ (fun pair entry =>
      Written a pair.1 .text (Utf8.size entry.1) (Utf8.encode entry.1)) pairs entries)
    (hvalues : List.Forall₂ (fun pair entry => Laid a pair.2 entry.2) pairs entries) :
    Laid a offset (.dict kind node entries)

variable {a : Arena} {offset : Nat} {v : Value}

namespace Laid

/-- The bytes of its node stand at the offset. -/
theorem exists_written (h : Laid a offset v) : ∃ offsets : List Nat,
    offsets.length = v.referenceCount ∧
      Written a offset v.kind v.nodeLength (payloadOf offsets v) := by
  cases h with
  | seq h hbefore hitems => exact ⟨_, hitems.length_eq, h⟩
  | dict h hbefore hkeys hvalues =>
    exact ⟨_, (length_pairReferences _).trans (congrArg (2 * ·) hkeys.length_eq), h⟩
  | null h | bool _ h | integer _ _ h | float32 _ h | float64 _ h | floats _ _ h | text _ _ h =>
    exact ⟨[], rfl, h⟩

/-- The node of a value is found at its offset. -/
theorem node_eq (h : Laid a offset v) (hfits : v.Fits) :
    a.node offset = .ok (nodeOf a offset v) := by
  obtain ⟨offsets, hlength, hwritten⟩ := h.exists_written
  exact hwritten.nodeOf_eq hfits hlength

/-- A value stands inside the used part, at a multiple of eight. -/
theorem offset_lt (h : Laid a offset v) : offset < a.used ∧ offset % 8 = 0 := by
  obtain ⟨offsets, -, hwritten⟩ := h.exists_written
  have hinside := hwritten.inside
  rw [headerSize] at hinside
  exact ⟨by omega, hwritten.aligned⟩

/-! ## Scalars and texts -/

/-- A node that was laid down is the boolean that the value is. -/
theorem toBool?_eq (h : Laid a offset v) : (nodeOf a offset v).toBool? = v.toBool? := by
  cases h with
  | bool b h =>
    have hword := h.word_eq
    show some ((⟨a, offset, .bool, 0⟩ : Node).word != 0) = some b
    rw [hword]
    cases b <;> rfl
  | _ => rfl

/-- An integer that is not unsigned of 64 bits is read with its sign. -/
theorem toInt?_of_ne {n : Node} {kind : IntegerKind} (hn : n.kind = .integer kind)
    (hkind : kind ≠ .uint64) : n.toInt? = some (Node.signedWord n.word) := by
  rw [Node.toInt?, hn]
  cases kind with
  | uint64 => exact absurd rfl hkind
  | _ => rfl

/-- A node that was laid down is the integer that the value is. -/
theorem toInt?_eq (h : Laid a offset v) : (nodeOf a offset v).toInt? = v.toInt? := by
  cases h with
  | integer kind bits h =>
    have hword : (nodeOf a offset (.integer kind bits)).word = (kind.toWord bits).toNat := h.word_eq
    by_cases hkind : kind = .uint64
    · subst hkind
      have hwide : (IntegerKind.uint64.toWord bits).toNat = bits.toNat :=
        BitVec.toNat_setWidth_of_le (IntegerKind.width_le .uint64)
      show (if (nodeOf a offset (.integer .uint64 bits)).word < 0x8000000000000000 then
        some ((nodeOf a offset (.integer .uint64 bits)).word : Int) else none) =
          if (bits.toNat : Int) < 0x8000000000000000 then some (bits.toNat : Int) else none
      rw [hword, hwide]
      by_cases hlt : bits.toNat < 0x8000000000000000
      · rw [if_pos hlt, if_pos (by omega)]
      · rw [if_neg hlt, if_neg (by omega)]
    · rw [toInt?_of_ne rfl hkind, hword, IntegerKind.signedWord_toWord hkind]
      exact (if_pos (IntegerKind.toInt_lt hkind bits)).symm
  | _ => rfl

/-- A node that was laid down is the text that the value is. -/
theorem toText?_eq (h : Laid a offset v) : (nodeOf a offset v).toText? = v.toText? := by
  cases h with
  | text node s h =>
    have hpayload := h.payload_eq
    rw [Utf8.length_encode] at hpayload
    show Utf8.decode? (a.slice (offset + headerSize) (Utf8.size s)) = some s
    rw [hpayload, Utf8.decode?_encode]
  | _ => rfl

/-- Where floats are aligned in the object, the components are read in place. -/
theorem components?_eq (h : Laid a offset v) (hstart : a.start % 4 = 0) :
    (nodeOf a offset v).components? = v.components? := by
  have hoffset := h.offset_lt.2
  cases h with
  | floats shape components h =>
    have haligned : (a.start + (offset + headerSize)) % 4 = 0 := by
      rw [headerSize]
      omega
    -- copying the node reads the same components
    have hcopied : leafValue (nodeOf a offset (.floats shape components)) 0 =
        .ok (.floats shape components) := by
      have hcopy : a.valueAt 0 offset = .ok (.floats shape components) :=
        h.valueAt_floats shape components
      rw [← hcopy, Written.valueAt_of_leaf ((Laid.floats shape components h).node_eq trivial) rfl]
    have hcomponents : (Vector.ofFn fun i : Fin shape.size =>
        (nodeOf a offset (.floats shape components)).component i) = components :=
      eq_of_heq (Value.floats.inj (Except.ok.inj hcopied)).2
    show (if (a.start + (offset + headerSize)) % 4 = 0 then some ((List.range shape.size).map
      (nodeOf a offset (.floats shape components)).component) else none) = some components.toList
    rw [if_pos haligned]
    congr 1
    conv_rhs => rw [← hcomponents]
    rw [Vector.toList_ofFn, List.ofFn_eq_map, ← List.map_coe_finRange_eq_range, List.map_map]
    rfl
  | _ => rfl

/-! ## Copying -/

mutual

/-- What stands in an arena is copied out of it. -/
theorem valueAt_eq (v : Value) {offset : Nat} (h : Laid a offset v) (hused : a.used < UInt64.size)
    (hfits : v.Fits) (hordered : v.Ordered) (node : NodeId) :
    ∃ w, a.valueAt node offset = .ok w ∧ w.content = v.content := by
  have hoffset := h.offset_lt.1.trans hused
  cases h with
  | null h => exact ⟨_, h.valueAt_null, rfl⟩
  | bool b h => exact ⟨_, h.valueAt_bool b, rfl⟩
  | integer kind bits h => exact ⟨_, h.valueAt_integer kind bits, rfl⟩
  | float32 bits h => exact ⟨_, h.valueAt_float32 bits, rfl⟩
  | float64 bits h => exact ⟨_, h.valueAt_float64 bits, rfl⟩
  | floats shape components h => exact ⟨_, h.valueAt_floats shape components, rfl⟩
  | text node' s h => exact ⟨_, h.valueAt_text hfits, rfl⟩
  | seq h hbefore hitems =>
    next kind node' items offsets =>
    obtain ⟨copies, hcopies, hcontents⟩ := itemsAt_eq items hitems hused hfits.2 hordered node
    have hlength : copies.length = items.length := by
      rw [← hcopies.length_eq, hitems.length_eq]
    rw [← hlength] at h
    refine ⟨_, h.valueAt_seq (hlength ▸ hfits.1) hoffset hbefore hcopies, ?_⟩
    rw [Value.content, Value.content, hcontents]
  | dict h hbefore hkeys hvalues =>
    next kind node' entries pairs =>
    obtain ⟨copies, hcopies, hkeep, hcontents⟩ :=
      entriesAt_eq entries hkeys hvalues hused hfits.2 hordered node
    have hlength : copies.length = entries.length := by
      rw [← hcopies.length_eq, hvalues.length_eq]
    rw [← hlength] at h
    -- the copies have the keys of the entries
    have hascending : copies.Pairwise fun a b => Utf8.order a.1 b.1 = .lt := by
      have hpairwise := (Value.pairwise_of_entriesOrdered hordered).2
      rw [← List.pairwise_map (f := Prod.fst) (R := fun a b => Utf8.order a b = .lt)] at hpairwise ⊢
      rwa [hkeep]
    refine ⟨_, h.valueAt_dict (hlength ▸ hfits.1) hoffset hbefore hcopies hascending, ?_⟩
    rw [Value.content, Value.content, hcontents]

/-- Items that stand in an arena are copied one by one. -/
theorem itemsAt_eq (items : List Value) {offsets : List Nat}
    (h : List.Forall₂ (Laid a) offsets items) (hused : a.used < UInt64.size)
    (hfits : Value.ItemsFit items) (hordered : Value.ItemsOrdered items) (node : NodeId) :
    ∃ copies, List.Forall₂ (fun reference v => a.valueAt node reference = .ok v) offsets copies ∧
      Value.itemContents copies = Value.itemContents items := by
  cases h with
  | nil => exact ⟨[], .nil, rfl⟩
  | @cons reference v offsets items hfirst hrest =>
    rw [Value.ItemsFit] at hfits
    rw [Value.ItemsOrdered] at hordered
    obtain ⟨w, hw, hcontent⟩ := valueAt_eq v hfirst hused hfits.1 hordered.1 node
    obtain ⟨copies, hcopies, hcontents⟩ := itemsAt_eq items hrest hused hfits.2 hordered.2 node
    exact ⟨w :: copies, .cons hw hcopies, by
      rw [Value.itemContents, Value.itemContents, hcontent, hcontents]⟩

/-- Entries that stand in an arena are copied one by one, each under its key. -/
theorem entriesAt_eq (entries : List (String × Value)) {pairs : List (Nat × Nat)}
    {last : Option String} (hkeys : List.Forall₂ (fun pair entry =>
      Written a pair.1 .text (Utf8.size entry.1) (Utf8.encode entry.1)) pairs entries)
    (hvalues : List.Forall₂ (fun pair entry => Laid a pair.2 entry.2) pairs entries)
    (hused : a.used < UInt64.size) (hfits : Value.EntriesFit entries)
    (hordered : Value.EntriesOrdered last entries) (node : NodeId) :
    ∃ copies, List.Forall₂ (fun pair entry =>
      (∀ n : Node, n.arena = a → n.keyAt pair.1 = .ok entry.1) ∧
        a.valueAt node pair.2 = .ok entry.2) pairs copies ∧
      copies.map Prod.fst = entries.map Prod.fst ∧
      Value.entryContents copies = Value.entryContents entries := by
  cases hvalues with
  | nil => exact ⟨[], .nil, rfl, rfl⟩
  | @cons pair entry pairs entries hfirst hrest =>
    obtain ⟨key, v⟩ := entry
    rw [Value.EntriesFit] at hfits
    rw [Value.EntriesOrdered] at hordered
    obtain ⟨hkey, hkeys⟩ := List.forall₂_cons.1 hkeys
    obtain ⟨w, hw, hcontent⟩ := valueAt_eq v hfirst hused hfits.2.1 hordered.2.1 node
    obtain ⟨copies, hcopies, hkeep, hcontents⟩ :=
      entriesAt_eq entries hkeys hrest hused hfits.2.2 hordered.2.2 node
    refine ⟨(key, w) :: copies, .cons ⟨fun n hn => hkey.keyAt_eq hn hfits.1, hw⟩ hcopies, ?_, ?_⟩
    · rw [List.map_cons, List.map_cons, hkeep]
    · rw [Value.entryContents, Value.entryContents, hcontent, hcontents]

end

end Laid

end Arena

end SharedExchange
