import Mathlib.Tactic
import SharedExchange.Arena.Copy
import SharedExchange.Arena.Writer
import SharedExchange.Value.Content

/-! # Reading a written node

`Written` says that the bytes of a node stand at an offset of an arena. A node that is written is
found there (`Written.node_eq`), and the value at its offset is the one it was written for:
`valueAt_null`, `valueAt_scalar`, `valueAt_floats` and `valueAt_text` for nodes that refer to no
other, and `valueAt_seq` and `valueAt_dict` for containers whose children can be read. -/

namespace SharedExchange

namespace Memory

/-- A slice is put together from two that adjoin. -/
theorem slice_add (m : Memory) (start count count' : Nat) :
    m.slice start (count + count') = m.slice start count ++ m.slice (start + count) count' := by
  simp only [slice, List.range_add, List.map_append, List.map_map, Nat.add_assoc]
  rfl

/-- The front of a slice and what is behind it. -/
theorem slice_eq_append {m : Memory} {start : Nat} {bytes rest : List UInt8} {count : Nat}
    (hcount : bytes.length = count) (h : m.slice start (count + rest.length) = bytes ++ rest) :
    m.slice start count = bytes ∧ m.slice (start + count) rest.length = rest := by
  rw [slice_add] at h
  exact List.append_inj h (by rw [length_slice, hcount])

/-- Numbers written one behind the other are loaded one by one. -/
theorem load_of_slice {m : Memory} {width : Nat} {numbers : List Nat} {start : Nat}
    (hfit : ∀ n ∈ numbers, n < LittleEndian.bound width)
    (h : m.slice start (width * numbers.length) =
      numbers.flatMap fun n => LittleEndian.toBytes width n) (i : Nat) (hi : i < numbers.length) :
    m.load width (start + width * i) = numbers[i] := by
  induction numbers generalizing start i with
  | nil => exact absurd hi (Nat.not_lt_zero i)
  | cons n numbers ih =>
    have hlength : (numbers.flatMap fun n => LittleEndian.toBytes width n).length =
        width * numbers.length := by
      simp [List.length_flatMap, Nat.mul_comm]
    -- the first number, and the others behind it
    rw [List.length_cons, Nat.mul_succ, Nat.add_comm, List.flatMap_cons, ← hlength] at h
    obtain ⟨hfirst, hrest⟩ := slice_eq_append (LittleEndian.length_toBytes ..) h
    rw [hlength] at hrest
    cases i with
    | zero =>
      rw [Nat.mul_zero, Nat.add_zero, load, hfirst]
      exact LittleEndian.ofBytes_toBytes_of_lt (hfit n List.mem_cons_self)
    | succ i =>
      have hload := ih (fun n hn => hfit n (List.mem_cons_of_mem _ hn)) hrest i
        (Nat.lt_of_succ_lt_succ hi)
      rw [List.getElem_cons_succ, ← hload]
      congr 1
      rw [Nat.mul_succ]
      omega

end Memory

namespace Arena

/-! ## Rounding up -/

/-- Padding makes nothing shorter. -/
theorem le_padded (n : Nat) : n ≤ padded n := by
  rw [padded]
  omega

/-- Padding ends on an eight-byte boundary. -/
@[simp] theorem padded_mod (n : Nat) : padded n % 8 = 0 := Nat.mul_mod_left ..

/-- What ends on an eight-byte boundary needs no padding. -/
theorem padded_of_mod {n : Nat} (h : n % 8 = 0) : padded n = n := by
  rw [padded]
  omega

/-- Each reference takes eight bytes. -/
theorem length_references (offsets : List Nat) :
    (Writer.references offsets).length = 8 * offsets.length := by
  simp [Writer.references, List.length_flatMap, Nat.mul_comm]

/-- References need no padding. -/
theorem padded_references (offsets : List Nat) :
    padded (Writer.references offsets).length = 8 * offsets.length := by
  rw [length_references, padded_of_mod (Nat.mul_mod_right ..)]

/-- The references of entries, key and value by turns. -/
def pairReferences (pairs : List (Nat × Nat)) : List Nat :=
  pairs.flatMap fun pair => [pair.1, pair.2]

/-- Each pair takes two references. -/
theorem length_pairReferences (pairs : List (Nat × Nat)) :
    (pairReferences pairs).length = 2 * pairs.length := by
  simp [pairReferences, List.length_flatMap, Nat.mul_comm]

/-- The pairs follow each other, the key in front of the value. -/
theorem getElem?_pairReferences (pairs : List (Nat × Nat)) (i : Nat) :
    (pairReferences pairs)[2 * i]? = pairs[i]?.map Prod.fst ∧
      (pairReferences pairs)[2 * i + 1]? = pairs[i]?.map Prod.snd := by
  induction pairs generalizing i with
  | nil => simp [pairReferences]
  | cons pair pairs ih =>
    cases i with
    | zero => exact ⟨rfl, rfl⟩
    | succ i =>
      have hcons : pairReferences (pair :: pairs) = pair.1 :: pair.2 :: pairReferences pairs := rfl
      rw [hcons, Nat.mul_succ]
      exact ih i

/-! ## A written node -/

/-- A node stands at an offset: it is aligned, lies in the used part and has these bytes. What
rounds up its payload is not looked at. -/
structure Written (a : Arena) (offset : Nat) (kind : Kind) (length : Nat) (payload : List UInt8) :
    Prop where
  aligned : offset % 8 = 0
  inside : offset + headerSize + padded payload.length ≤ a.used
  bytes : a.slice offset (headerSize + payload.length) = Writer.nodeBytes kind length payload

namespace Written

variable {a : Arena} {offset length : Nat} {kind : Kind} {payload : List UInt8} {node : NodeId}

/-- The payload of a written node is found behind its header. -/
theorem payload_eq (h : Written a offset kind length payload) :
    a.slice (offset + headerSize) payload.length = payload := by
  have hbytes := h.bytes
  rw [Writer.nodeBytes, ← List.append_assoc] at hbytes
  have hpayload := (Memory.slice_eq_append (by simp [headerSize]) hbytes).2
  rwa [Nat.add_assoc] at hpayload

/-- The header of a written node is read back. -/
theorem node_eq (h : Written a offset kind length payload) (hlength : length < UInt32.size)
    (hcount : kind.componentCount?.any (· != length) = false)
    (hroom : payloadRoom kind length = padded payload.length) :
    a.node offset = .ok ⟨a, offset, kind, length⟩ := by
  have hinside := h.inside
  have hbytes := h.bytes
  rw [Writer.nodeBytes, slice, headerSize, show 8 + payload.length = 4 + (4 + payload.length) from
    by omega] at hbytes
  have hsplit : (LittleEndian.toBytes 4 length ++ payload).length = 4 + payload.length := by simp
  rw [← hsplit] at hbytes
  have hfour : [kind.byte, 0, 0, 0].length = 4 := rfl
  -- kind, length and payload follow one another
  obtain ⟨htag, hrest⟩ := Memory.slice_eq_append hfour hbytes
  rw [hsplit] at hrest
  have hnumber := (Memory.slice_eq_append (LittleEndian.length_toBytes ..) hrest).1
  have hkind : a.memory.get (a.start + offset) = kind.byte := by
    have hhead := congrArg List.head? htag
    simpa [Memory.slice, List.range_succ] using hhead
  have hload : a.memory.load 4 (a.start + offset + 4) = length := by
    rw [Memory.load, hnumber]
    exact LittleEndian.ofBytes_toBytes_of_lt hlength
  have hheader : ¬a.used < offset + headerSize := by omega
  have hpayload : ¬a.used < offset + headerSize + payloadRoom kind length := by
    rw [hroom]
    omega
  simp only [Arena.node, h.aligned, hheader, hkind, Kind.ofByte?_byte, hload, hcount, hpayload,
    bind, Except.bind, pure, Except.pure, ne_eq, not_true, if_false, Bool.false_eq_true]

/-- The words of a payload are read one by one. -/
theorem word?_eq {words : List Nat}
    (h : Written a offset kind length (Writer.references words))
    (hfit : ∀ word ∈ words, word < UInt64.size) (i : Nat) (hi : i < words.length) :
    a.word? (offset + headerSize + 8 * i) = some words[i] := by
  have hlength := length_references words
  have hbytes := h.payload_eq
  have hinside := h.inside
  have hpad := le_padded (Writer.references words).length
  rw [hlength, slice, ← Nat.add_assoc] at hbytes
  have hbound : ∀ word ∈ words, word < LittleEndian.bound 8 := hfit
  have hload := Memory.load_of_slice hbound hbytes i hi
  rw [word?, if_pos (by omega), ← hload]
  congr 2
  omega

/-! ### Nodes that refer to no other -/

/-- A node that is no container stands for its leaf value. -/
theorem valueAt_of_leaf {n : Node} (h : a.node offset = .ok n)
    (hleaf : n.kind.isContainer = false) :
    a.valueAt node offset = leafValue n node := by
  rw [valueAt_eq, h]
  show copyNode (a.valueAt node) node n = leafValue n node
  unfold copyNode
  split
  · next hkind =>
    rw [hkind] at hleaf
    cases hleaf
  · next hkind =>
    rw [hkind] at hleaf
    cases hleaf
  · rfl

/-- The null that was written is read back. -/
theorem valueAt_null (h : Written a offset .null 0 []) : a.valueAt node offset = .ok .null := by
  rw [valueAt_of_leaf (h.node_eq (by decide) rfl rfl) rfl]
  rfl

/-- A text is read back, as the node at its offset. -/
theorem valueAt_text {s : String} (hs : Utf8.size s < UInt32.size)
    (h : Written a offset .text (Utf8.size s) (Utf8.encode s)) :
    a.valueAt node offset = .ok (.text (node + offset) s) := by
  have hpayload := h.payload_eq
  rw [Utf8.length_encode] at hpayload
  rw [valueAt_of_leaf (h.node_eq hs rfl rfl) rfl]
  simp only [leafValue, Node.toText?, Node.payload, hpayload, Utf8.decode?_encode, if_true]

/-- The key of an entry is read from its own node. -/
theorem keyAt_eq {n : Node} (hn : n.arena = a) {s : String} (hs : Utf8.size s < UInt32.size)
    (h : Written a offset .text (Utf8.size s) (Utf8.encode s)) : n.keyAt offset = .ok s := by
  have hpayload := h.payload_eq
  rw [Utf8.length_encode] at hpayload
  simp only [Node.keyAt, hn, h.node_eq hs rfl rfl, Node.toText?, Node.payload, hpayload,
    Utf8.decode?_encode, if_true, bind, Except.bind, pure, Except.pure]

/-- The word of a number or truth value is read back. -/
theorem word_eq (word : UInt64) (h : Written a offset kind 0 (LittleEndian.toBytes 8 word.toNat)) :
    (⟨a, offset, kind, 0⟩ : Node).word = word.toNat := by
  -- one word is a list of references of length one
  have hone : LittleEndian.toBytes 8 word.toNat = Writer.references [word.toNat] := by
    rw [Writer.references, List.flatMap_singleton]
  rw [hone] at h
  have hfound := h.word?_eq (fun w hw => by
    rw [List.mem_singleton.1 hw]
    exact word.toNat_lt) 0 Nat.one_pos
  rw [Nat.mul_zero, Nat.add_zero] at hfound
  rw [Node.word, Node.payload, hfound]
  rfl

/-- A node with one word stands for the leaf value of its kind. -/
theorem valueAt_of_word (word : UInt64) (hleaf : kind.isContainer = false)
    (hcount : kind.componentCount? = none) (hroom : payloadRoom kind 0 = 8)
    (h : Written a offset kind 0 (LittleEndian.toBytes 8 word.toNat)) :
    a.valueAt node offset = leafValue ⟨a, offset, kind, 0⟩ node := by
  have hnode := h.node_eq (by decide) (by rw [hcount]; rfl)
    (by rw [hroom, LittleEndian.length_toBytes]; rfl)
  exact valueAt_of_leaf hnode hleaf

/-- A boolean that was written is read back. -/
theorem valueAt_bool (b : Bool)
    (h : Written a offset .bool 0 (LittleEndian.toBytes 8 (Writer.scalarWord (.bool b)).toNat)) :
    a.valueAt node offset = .ok (.bool b) := by
  rw [valueAt_of_word _ rfl rfl rfl h, leafValue, h.word_eq]
  cases b <;> rfl

/-- An integer that was written is read back. -/
theorem valueAt_integer (kind : IntegerKind) (bits : BitVec kind.width)
    (h : Written a offset (.integer kind) 0
      (LittleEndian.toBytes 8 (Writer.scalarWord (.integer kind bits)).toNat)) :
    a.valueAt node offset = .ok (.integer kind bits) := by
  rw [valueAt_of_word _ rfl rfl rfl h]
  simp only [leafValue, h.word_eq, UInt64.ofNat_toNat, Writer.scalarWord,
    IntegerKind.ofWord_toWord]

/-- A float that was written is read back. -/
theorem valueAt_float32 (bits : UInt32)
    (h : Written a offset .float32 0
      (LittleEndian.toBytes 8 (Writer.scalarWord (.float32 bits)).toNat)) :
    a.valueAt node offset = .ok (.float32 bits) := by
  rw [valueAt_of_word _ rfl rfl rfl h, leafValue, h.word_eq, Writer.scalarWord,
    UInt32.toNat_toUInt64, UInt32.ofNat_toNat]

/-- A double that was written is read back. -/
theorem valueAt_float64 (bits : UInt64)
    (h : Written a offset .float64 0
      (LittleEndian.toBytes 8 (Writer.scalarWord (.float64 bits)).toNat)) :
    a.valueAt node offset = .ok (.float64 bits) := by
  rw [valueAt_of_word _ rfl rfl rfl h, leafValue, h.word_eq, Writer.scalarWord,
    UInt64.ofNat_toNat]

/-- A float shape that was written is read back. -/
theorem valueAt_floats (shape : Shape) (components : Vector UInt32 shape.size)
    (h : Written a offset (.floats shape) shape.size
      (components.toList.flatMap fun component => LittleEndian.toBytes 4 component.toNat)) :
    a.valueAt node offset = .ok (.floats shape components) := by
  have hlength : (components.toList.flatMap fun component =>
      LittleEndian.toBytes 4 component.toNat).length = 4 * shape.size := by
    simp [List.length_flatMap, Nat.mul_comm]
  have hsize : shape.size < UInt32.size := by cases shape <;> decide
  have hcount : (Kind.floats shape).componentCount?.any (· != shape.size) = false := by
    simp [Kind.componentCount?]
  have hroom : payloadRoom (.floats shape) shape.size = padded (components.toList.flatMap
      fun component => LittleEndian.toBytes 4 component.toNat).length := by
    rw [hlength, payloadRoom]
  have hbytes := h.payload_eq
  have hnumbers : a.memory.slice (a.start + (offset + headerSize))
      (4 * (components.toList.map UInt32.toNat).length) =
        (components.toList.map UInt32.toNat).flatMap fun n => LittleEndian.toBytes 4 n := by
    rw [hlength, slice] at hbytes
    simpa [List.flatMap_map] using hbytes
  have hbound : ∀ n ∈ components.toList.map UInt32.toNat, n < LittleEndian.bound 4 := by
    intro n hn
    obtain ⟨component, -, rfl⟩ := List.mem_map.1 hn
    exact component.toNat_lt
  -- the components are read as the numbers that were written
  have hcomponent : ∀ i (hi : i < shape.size),
      (⟨a, offset, .floats shape, shape.size⟩ : Node).component i = components[i] := by
    intro i hi
    have hload := Memory.load_of_slice hbound hnumbers i (by simpa using hi)
    rw [Node.component, Memory.load32, Node.payload, Nat.add_assoc, ← Nat.add_assoc a.start, hload]
    simp
  have hvector : (Vector.ofFn fun i : Fin shape.size =>
      (⟨a, offset, .floats shape, shape.size⟩ : Node).component i) = components := by
    ext i hi
    rw [Vector.getElem_ofFn, hcomponent i hi]
  rw [valueAt_of_leaf (h.node_eq hsize hcount hroom) rfl]
  simp only [leafValue, hvector]

/-! ### Containers -/

/-- Items are copied one after the other. -/
theorem copyItems_eq {n : Node} {copy : Nat → Except Fault Value} {references : List Nat}
    {items : List Value} {i : Nat}
    (hcopy : List.Forall₂ (fun reference v => copy reference = .ok v) references items)
    (hreference : ∀ j (hj : j < references.length),
      n.itemReference (i + j) = .ok references[j]) :
    copyItems copy n references.length i = .ok items := by
  induction hcopy generalizing i with
  | nil => rfl
  | @cons reference v references items hfirst hrest ih =>
    have hhead : n.itemReference i = .ok reference := hreference 0 (Nat.succ_pos _)
    have htail : copyItems copy n references.length (i + 1) = .ok items := by
      apply ih
      intro j hj
      rw [Nat.add_right_comm, Nat.add_assoc]
      exact hreference (j + 1) (Nat.succ_lt_succ hj)
    show (n.itemReference i >>= fun reference => copy reference >>= fun first =>
      copyItems copy n references.length (i + 1) >>= fun rest => pure (first :: rest)) = _
    rw [hhead]
    show (copy reference >>= fun first =>
      copyItems copy n references.length (i + 1) >>= fun rest => pure (first :: rest)) = _
    rw [hfirst, htail]
    rfl

/-- A sequence stands for the values that its references lead to. -/
theorem valueAt_seq {kind : SeqKind} {references : List Nat} {items : List Value}
    (h : Written a offset (.seq kind) items.length (Writer.references references))
    (hlength : items.length < UInt32.size) (hoffset : offset < UInt64.size)
    (hbefore : ∀ reference ∈ references, reference < offset)
    (hitems : List.Forall₂ (fun reference v => a.valueAt node reference = .ok v)
      references items) :
    a.valueAt node offset = .ok (.seq kind (node + offset) items) := by
  have hroom : payloadRoom (.seq kind) items.length =
      padded (Writer.references references).length := by
    rw [padded_references, hitems.length_eq, payloadRoom]
  have hnode := h.node_eq hlength rfl hroom
  have hreference : ∀ j (hj : j < references.length),
      (⟨a, offset, .seq kind, items.length⟩ : Node).itemReference (0 + j) = .ok references[j] := by
    intro j hj
    have hword := h.word?_eq (fun word hword => (hbefore word hword).trans hoffset) j hj
    have hlt := hbefore _ (List.getElem_mem hj)
    rw [Nat.zero_add]
    simp only [Node.itemReference, Node.payload, hword, Nat.not_le.2 hlt, if_false]
  rw [valueAt_eq, hnode]
  show copyNode (a.valueAt node) node ⟨a, offset, .seq kind, items.length⟩ = _
  have hcopied := copyItems_eq hitems hreference
  rw [hitems.length_eq] at hcopied
  simp only [copyNode, hcopied]
  rfl

/-- A key behind all others is added at the end. -/
theorem insertEntry_eq_append {key : String} {v : Value} {entries : List (String × Value)}
    (h : ∀ entry ∈ entries, Utf8.order entry.1 key = .lt) :
    Value.insertEntry key v entries = entries ++ [(key, v)] := by
  induction entries with
  | nil => rfl
  | cons entry entries ih =>
    obtain ⟨key', v'⟩ := entry
    have hkey : Utf8.order key key' = .gt := by
      rw [← Utf8.order_swap, h _ List.mem_cons_self]
      rfl
    have hrest := ih fun entry hentry => h entry (List.mem_cons_of_mem _ hentry)
    simp only [Value.insertEntry, hkey, hrest, List.cons_append]

/-- An entry whose key comes last is added at the end. -/
theorem addEntry_eq_append {key : String} {v : Value} {entries : List (String × Value)}
    (h : ∀ entry ∈ entries, Utf8.order entry.1 key = .lt) :
    addEntry key v entries = .ok (entries ++ [(key, v)]) := by
  -- no key before it is equal to it
  have hnew : entries.lookup key = none := by
    rw [List.lookup_eq_none_iff]
    intro entry hentry
    rw [bne_iff_ne]
    intro heq
    have hlt := h entry hentry
    rw [← heq, Utf8.order_eq_iff.2 rfl] at hlt
    cases hlt
  rw [addEntry, hnew, insertEntry_eq_append h]
  rfl

/-- Entries are copied one after the other. As their keys ascend, none is met twice, and each goes
behind those before it. -/
theorem copyEntries_eq {n : Node} {copy : Nat → Except Fault Value} {found : List (String × Nat)}
    {entries : List (String × Value)} {i : Nat} {copied : List (String × Value)}
    (hcopy : List.Forall₂ (fun place entry => place.1 = entry.1 ∧ copy place.2 = .ok entry.2)
      found entries)
    (hreference : ∀ j (hj : j < found.length), n.entryReference (i + j) = .ok found[j])
    (hordered : (copied ++ entries).Pairwise fun a b => Utf8.order a.1 b.1 = .lt) :
    copyEntries copy n found.length i copied = .ok (copied ++ entries) := by
  induction hcopy generalizing i copied with
  | nil =>
    rw [List.append_nil]
    rfl
  | @cons place entry found entries hfirst hrest ih =>
    obtain ⟨key, reference⟩ := place
    obtain ⟨key', v⟩ := entry
    obtain ⟨rfl, hcopy⟩ : key = key' ∧ copy reference = .ok v := hfirst
    have hhead : n.entryReference i = .ok (key, reference) := hreference 0 (Nat.succ_pos _)
    -- the key comes after all that were copied
    have hadd : addEntry key v copied = .ok (copied ++ [(key, v)]) :=
      addEntry_eq_append fun entry hentry =>
        (List.pairwise_append.1 hordered).2.2 entry hentry _ List.mem_cons_self
    have htail : copyEntries copy n found.length (i + 1) (copied ++ [(key, v)]) =
        .ok (copied ++ [(key, v)] ++ entries) := by
      refine ih ?_ ?_
      · intro j hj
        rw [Nat.add_right_comm, Nat.add_assoc]
        exact hreference (j + 1) (Nat.succ_lt_succ hj)
      · rwa [List.append_assoc]
    show (n.entryReference i >>= fun place => copy place.2 >>= fun v =>
      addEntry place.1 v copied >>= fun copied =>
        copyEntries copy n found.length (i + 1) copied) = _
    rw [hhead]
    show (copy reference >>= fun v => addEntry key v copied >>= fun copied =>
      copyEntries copy n found.length (i + 1) copied) = _
    rw [hcopy]
    show (addEntry key v copied >>= fun copied =>
      copyEntries copy n found.length (i + 1) copied) = _
    rw [hadd]
    show copyEntries copy n found.length (i + 1) (copied ++ [(key, v)]) = _
    rw [htail, List.append_assoc]
    rfl

/-- The references of an entry are read from its two words. -/
theorem entryReferences?_eq {pairs : List (Nat × Nat)} (count : Nat)
    (h : Written a offset kind length (Writer.references (pairReferences pairs)))
    (hfit : ∀ pair ∈ pairs, pair.1 < UInt64.size ∧ pair.2 < UInt64.size) (i : Nat)
    (hi : i < pairs.length) :
    (⟨a, offset, kind, count⟩ : Node).entryReferences? i = some pairs[i] := by
  have hword : ∀ word ∈ pairReferences pairs, word < UInt64.size := by
    intro word hmem
    obtain ⟨pair, hpair, hword⟩ := List.mem_flatMap.1 hmem
    have hpairfit := hfit pair hpair
    rcases List.mem_pair.1 hword with rfl | rfl
    · exact hpairfit.1
    · exact hpairfit.2
  have hlength := length_pairReferences pairs
  obtain ⟨hfst, hsnd⟩ := getElem?_pairReferences pairs i
  rw [List.getElem?_eq_getElem hi, List.getElem?_eq_getElem (by omega)] at hfst hsnd
  have hkey := h.word?_eq hword (2 * i) (by omega)
  have hvalue := h.word?_eq hword (2 * i + 1) (by omega)
  rw [Option.some.inj hfst, ← Nat.mul_assoc] at hkey
  rw [Option.some.inj hsnd, Nat.mul_succ, ← Nat.mul_assoc, ← Nat.add_assoc] at hvalue
  simp only [Node.entryReferences?, Node.payload, hkey, hvalue]
  rfl

/-- A keyed container stands for the keys and values that its references lead to. -/
theorem valueAt_dict {kind : DictKind} {pairs : List (Nat × Nat)}
    {entries : List (String × Value)}
    (h : Written a offset (.dict kind) entries.length (Writer.references (pairReferences pairs)))
    (hlength : entries.length < UInt32.size) (hoffset : offset < UInt64.size)
    (hbefore : ∀ pair ∈ pairs, pair.1 < offset ∧ pair.2 < offset)
    (hentries : List.Forall₂ (fun pair entry =>
      (∀ n : Node, n.arena = a → n.keyAt pair.1 = .ok entry.1) ∧
        a.valueAt node pair.2 = .ok entry.2) pairs entries)
    (hordered : entries.Pairwise fun a b => Utf8.order a.1 b.1 = .lt) :
    a.valueAt node offset = .ok (.dict kind (node + offset) entries) := by
  have hcount := hentries.length_eq
  have hroom : payloadRoom (.dict kind) entries.length =
      padded (Writer.references (pairReferences pairs)).length := by
    rw [padded_references, length_pairReferences, payloadRoom, ← hcount]
    omega
  have hnode := h.node_eq hlength rfl hroom
  -- what reading the entries finds: their keys, and the references to their values
  let found := List.zipWith (fun (pair : Nat × Nat) (entry : String × Value) =>
    (entry.1, pair.2)) pairs entries
  have hfound : found.length = entries.length := by
    rw [List.length_zipWith, hcount, Nat.min_self]
  have hreference : ∀ j (hj : j < found.length),
      (⟨a, offset, .dict kind, entries.length⟩ : Node).entryReference (0 + j) = .ok found[j] := by
    intro j hj
    have hpair : j < pairs.length := by omega
    have hlt := hbefore _ (List.getElem_mem hpair)
    have hreferences := h.entryReferences?_eq entries.length
      (fun pair hmem => ⟨(hbefore pair hmem).1.trans hoffset, (hbefore pair hmem).2.trans hoffset⟩)
      j hpair
    have hkey := (hentries.get hpair (hfound ▸ hj)).1
      ⟨a, offset, .dict kind, entries.length⟩ rfl
    rw [List.get_eq_getElem, List.get_eq_getElem] at hkey
    rw [Nat.zero_add, List.getElem_zipWith]
    simp only [Node.entryReference, hreferences, not_le.2 hlt.1, not_le.2 hlt.2, or_self, if_false,
      hkey]
    rfl
  have hcopy : List.Forall₂ (fun place entry => place.1 = entry.1 ∧
      a.valueAt node place.2 = .ok entry.2) found entries := by
    refine List.forall₂_iff_get.2 ⟨hfound, ?_⟩
    intro j hj hj'
    have hvalue := (hentries.get (by omega) hj').2
    simp only [List.get_eq_getElem, found, List.getElem_zipWith] at hvalue ⊢
    exact ⟨trivial, hvalue⟩
  rw [valueAt_eq, hnode]
  show copyNode (a.valueAt node) node ⟨a, offset, .dict kind, entries.length⟩ = _
  rw [← List.nil_append entries] at hordered
  have hcopied := copyEntries_eq hcopy hreference hordered
  rw [hfound, List.nil_append] at hcopied
  simp only [copyNode, hcopied]
  rfl

end Written

end Arena
end SharedExchange
