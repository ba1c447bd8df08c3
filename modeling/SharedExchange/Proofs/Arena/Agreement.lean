import Mathlib.Tactic
import SharedExchange.Proofs.Arena.Confined
import SharedExchange.Proofs.Value.Editing

/-! # Where a node and its copy agree

Reading in place and copying look at the same bytes and ask different things of them. Copying
refuses a key that comes twice, but it sorts the keys itself (`exists_read_of_copyEntries`), while
looking a key up in place halves the distance and takes the keys to be ascending. Copying narrows
the word of an integer to its kind, while in place the whole word is read. So whatever is found in
place is what the copy has, and the two agree on every key exactly when the keys ascend
(`Node.ascending_of_search`), and on an integer exactly when its word is the widened number
(`Node.Copied.toInt?_eq_iff`): `Region.Obtains.agrees_iff`. -/

namespace SharedExchange

namespace Node

/-- The word of an integer node is its number widened to 64 bits, as it is when a value is laid
out. -/
def Widened (n : Node) : Prop :=
  ∀ kind, n.kind = .integer kind →
    (kind.toWord (kind.ofWord (UInt64.ofNat n.word))).toNat = n.word

/-- The node is the one that its arena has at its offset, and `v` is its copy. -/
structure Copied (n : Node) (node : NodeId) (v : Value) : Prop where
  node_eq : n.arena.node n.offset = .ok n
  toValue_eq : n.toValue node = .ok v

variable {n child : Node} {node : NodeId} {v : Value}

/-- The payload word of a node is one of 64 bits. -/
theorem word_lt (n : Node) : n.word < 2 ^ 64 := by
  have hlt : (n.arena.memory.load 8 (n.arena.start + n.payload)) < 2 ^ 64 := Memory.load_lt ..
  rw [word, Arena.word?]
  split
  · exact hlt
  · exact Nat.two_pow_pos 64

/-- Different words of 64 bits are different numbers. -/
theorem signedWord_inj {a b : Nat} (ha : a < 2 ^ 64) (hb : b < 2 ^ 64) :
    signedWord a = signedWord b ↔ a = b := by
  rw [signedWord, signedWord, BitVec.toInt_inj]
  refine ⟨fun h => ?_, fun h => h ▸ rfl⟩
  have hnat := congrArg BitVec.toNat h
  rwa [BitVec.toNat_ofNat, BitVec.toNat_ofNat, Nat.mod_eq_of_lt ha, Nat.mod_eq_of_lt hb] at hnat

/-! ## Searching keys that need not ascend -/

section

variable {found : List (String × Node)} {steps low high : Nat}

/-- No two places have the same key. -/
theorem index_eq_of_key {i j : Nat} (hnodup : (found.map Prod.fst).Nodup) (hi : i < found.length)
    (hj : j < found.length) (hkey : found[i].1 = found[j].1) : i = j := by
  have hne := List.pairwise_iff_getElem.1 (List.pairwise_map.1 hnodup)
  rcases Nat.lt_trichotomy i j with hij | hij | hij
  · exact absurd hkey (hne i j hi hj hij)
  · exact hij
  · exact absurd hkey.symm (hne j i hj hi hij)

/-- Under a key that stands once there is its value. -/
theorem lookup_of_nodup {i : Nat} (hnodup : (found.map Prod.fst).Nodup) (hi : i < found.length) :
    found.lookup found[i].1 = some found[i].2 := by
  rw [List.lookup_eq_some_iff]
  refine ⟨found.take i, found.drop (i + 1), ?_, fun entry hentry => ?_⟩
  · rw [Prod.mk.eta, List.getElem_cons_drop, List.take_append_drop]
  · obtain ⟨j, hj, rfl⟩ := List.getElem_of_mem hentry
    have hbefore := List.length_take_le i found
    rw [List.getElem_take, bne_iff_ne]
    intro hkey
    obtain rfl := index_eq_of_key hnodup hi (by omega) hkey
    omega

/-- If halving finds every key between two positions, then each key in front of the middle is
smaller than that in the middle, and is found in front of it; and likewise behind. -/
theorem sides_of_search {middle i : Nat}
    (hentry : ∀ i (hi : i < found.length), n.entry? i = some found[i])
    (hnodup : (found.map Prod.fst).Nodup) (hmiddle : middle = low + (high - low) / 2)
    (hmid : middle < found.length) (hi : i < found.length) (hhigh : high ≤ found.length)
    (hlow : low ≤ i) (hbelow : i < high)
    (hfinds : (n.search found[i].1 (steps + 1) low high).isSome) :
    (i < middle → Utf8.order found[i].1 found[middle].1 = .lt ∧
        (n.search found[i].1 steps low middle).isSome) ∧
      (middle < i → Utf8.order found[middle].1 found[i].1 = .lt ∧
        (n.search found[i].1 steps (middle + 1) high).isSome) := by
  obtain ⟨hit, hhit⟩ := Option.isSome_iff_exists.1 hfinds
  have hplace : ∀ {first last : Nat}, n.search found[i].1 steps first last = some hit →
      last ≤ found.length → first ≤ i ∧ i < last := by
    intro first last h hinside
    obtain ⟨j, hfirst, hlast, hfound⟩ := entry?_of_search h
    have hj : j < found.length := hlast.trans_le hinside
    rw [hentry j hj] at hfound
    have hkey : found[j].1 = found[i].1 := by rw [Option.some.inj hfound]
    obtain rfl := index_eq_of_key hnodup hj hi hkey
    exact ⟨hfirst, hlast⟩
  rw [search_eq, if_pos (by omega), ← hmiddle, hentry middle hmid] at hhit
  simp only at hhit
  -- the search goes on to the side where the key stands
  cases horder : Utf8.order found[middle].1 found[i].1 with
  | eq =>
    obtain rfl := index_eq_of_key hnodup hmid hi (Utf8.order_eq_iff.1 horder)
    exact ⟨fun h => absurd h (Nat.lt_irrefl _), fun h => absurd h (Nat.lt_irrefl _)⟩
  | lt =>
    rw [horder] at hhit
    have hside := hplace hhit hhigh
    exact ⟨fun h => by omega, fun _ => ⟨rfl, Option.isSome_of_eq_some hhit⟩⟩
  | gt =>
    rw [horder] at hhit
    have hside := hplace hhit (by omega)
    refine ⟨fun _ => ⟨?_, Option.isSome_of_eq_some hhit⟩, fun h => by omega⟩
    rw [← Utf8.order_swap, horder]
    rfl

/-- If halving finds every key between two positions, then the keys between them ascend. -/
theorem order_of_search {i j : Nat}
    (hentry : ∀ i (hi : i < found.length), n.entry? i = some found[i])
    (hnodup : (found.map Prod.fst).Nodup) (hsteps : high - low < steps)
    (hhigh : high ≤ found.length)
    (hfinds : ∀ i (hi : i < found.length), low ≤ i → i < high →
      (n.search found[i].1 steps low high).isSome)
    (hi : i < found.length) (hj : j < found.length) (hlow : low ≤ i) (hij : i < j)
    (hbelow : j < high) : Utf8.order found[i].1 found[j].1 = .lt := by
  induction steps generalizing low high i j with
  | zero => omega
  | succ steps ih =>
    have hmid : low + (high - low) / 2 < found.length := by omega
    have hsides := fun k hk hlow hbelow =>
      sides_of_search hentry hnodup rfl hmid hk hhigh hlow hbelow (hfinds k hk hlow hbelow)
    obtain ⟨hileft, hiright⟩ := hsides i hi hlow (by omega)
    obtain ⟨hjleft, hjright⟩ := hsides j hj (by omega) hbelow
    rcases Nat.lt_trichotomy i (low + (high - low) / 2) with hfront | rfl | hback
    · rcases Nat.lt_trichotomy j (low + (high - low) / 2) with hjfront | rfl | hjback
      · refine ih (by omega) hmid.le (fun k hk hkl hkh => ?_) hi hj hlow hij hjfront
        exact ((hsides k hk hkl (by omega)).1 hkh).2
      · exact (hileft hfront).1
      · exact Utf8.order_trans (hileft hfront).1 (hjright hjback).1
    · exact (hjright hij).1
    · refine ih (by omega) hhigh (fun k hk hkl hkh => ?_) hi hj hback hij hbelow
      exact ((hsides k hk (by omega) hkh).2 hkl).2

end

/-! ## What is copied -/

section

variable {f : Nat → Except Fault Value}

/-- Copying goes over the entries in their order, meets each key once, and keeps under every key the
value that it met there. -/
theorem exists_read_of_copyEntries {count i : Nat} {copied result : List (String × Value)}
    (h : Arena.copyEntries f n count i copied = .ok result) :
    ∃ read : List (String × Value),
      List.Forall₂ (fun j entry => ∃ reference,
        n.entryReference j = .ok (entry.1, reference) ∧ f reference = .ok entry.2)
        (List.range' i count) read ∧
      (read.map Prod.fst).Nodup ∧ (∀ key ∈ read.map Prod.fst, copied.lookup key = none) ∧
      ∀ key, result.lookup key = (read.lookup key).or (copied.lookup key) := by
  induction count generalizing i copied with
  | zero =>
    cases h
    exact ⟨[], .nil, List.nodup_nil, fun key hkey => absurd hkey List.not_mem_nil, fun _ => rfl⟩
  | succ count ih =>
    obtain ⟨⟨key, reference⟩, hreference, h⟩ := bind_eq_ok_iff.1 h
    obtain ⟨v, hv, h⟩ := bind_eq_ok_iff.1 h
    obtain ⟨added, hadded, h⟩ := bind_eq_ok_iff.1 h
    -- the entry is added, so its key was not among those copied before
    have hnew : copied.lookup key = none ∧ Value.insertEntry key v copied = added := by
      have hadded : Arena.addEntry key v copied = .ok added := hadded
      rw [Arena.addEntry] at hadded
      split at hadded
      · cases hadded
      · next hnone =>
        rw [Bool.not_eq_true, Option.isSome_eq_false_iff, Option.isNone_iff_eq_none] at hnone
        exact ⟨hnone, Except.ok.inj hadded⟩
    obtain ⟨hnone, rfl⟩ := hnew
    obtain ⟨read, hread, hnodup, hfresh, hlookup⟩ := ih h
    -- and it does not come up again, as it would be found then
    have hother : ∀ other ∈ read.map Prod.fst, other ≠ key := by
      rintro other hother rfl
      have hset := hfresh other hother
      rw [Value.lookup_insertEntry] at hset
      cases hset
    refine ⟨(key, v) :: read, ?_, ?_, ?_, ?_⟩
    · rw [List.range'_succ]
      exact .cons ⟨reference, hreference, hv⟩ hread
    · exact List.nodup_cons.2 ⟨fun hmem => hother key hmem rfl, hnodup⟩
    · intro other hmem
      rcases List.mem_cons.1 hmem with rfl | hmem
      · exact hnone
      · rw [← hfresh other hmem, Value.lookup_insertEntry_of_ne (hother other hmem)]
    · intro other
      rw [hlookup, List.lookup_cons]
      by_cases hkey : other = key
      · subst hkey
        have hunread : read.lookup other = none := by
          rw [List.lookup_eq_none_iff]
          intro entry hentry
          rw [bne_iff_ne]
          exact (hother entry.1 (List.mem_map_of_mem hentry)).symm
        rw [hunread, Value.lookup_insertEntry, beq_self_eq_true]
        rfl
      · rw [beq_false_of_ne hkey, Value.lookup_insertEntry_of_ne hkey]

end

/-- An entry that is copied is an entry that can be read in place. -/
theorem entry?_of_entryReference {i reference : Nat} {key : String}
    (h : n.entryReference i = .ok (key, reference)) (hchild : n.arena.node reference = .ok child) :
    n.entry? i = some (key, child) := by
  rw [entryReference] at h
  split at h
  · cases h
  · next keyReference valueReference hreferences =>
    split at h
    · cases h
    · next hbefore =>
      obtain ⟨hkeyBefore, hvalueBefore⟩ := not_or.1 hbefore
      obtain ⟨found, hkey, heq⟩ := map_eq_ok_iff.1 h
      cases heq
      rw [keyAt] at hkey
      obtain ⟨keyNode, hkeyNode, hkey⟩ := bind_eq_ok_iff.1 hkey
      have htext : keyNode.toText? = some key := by
        split at hkey
        · cases hkey
        · next hfound =>
          rw [hfound, pure_eq_ok_iff.1 hkey]
      have hkeyChild : n.child keyReference = .ok keyNode := by
        rw [Node.child, if_neg hkeyBefore, hkeyNode]
      have hvalueChild : n.child reference = .ok child := by
        rw [Node.child, if_neg hvalueBefore, hchild]
      simp only [Node.entry?, hreferences, hkeyChild, hvalueChild, Except.toOption, htext,
        Option.bind_eq_bind, Option.bind_some, Option.pure_def]

namespace Copied

/-- A node that was copied item by item is copied as a whole. -/
theorem copyNode_eq (h : n.Copied node v) :
    Arena.copyNode (n.arena.valueAt node) node n = .ok v := by
  have hvalue := h.toValue_eq
  rwa [Node.toValue, Arena.copyOut_eq_valueAt, Arena.valueAt_eq, h.node_eq] at hvalue

/-- What a reference leads to has the copy that is made of it. -/
theorem of_valueAt {a : Arena} {reference : Nat} (h : a.valueAt node reference = .ok v) :
    ∃ child, a.node reference = .ok child ∧ child.Copied node v := by
  have hvalue := h
  rw [Arena.valueAt_eq] at hvalue
  obtain ⟨child, hchild, -⟩ := bind_eq_ok_iff.1 hvalue
  obtain ⟨-, rfl, rfl⟩ := Arena.whole_of_node hchild
  refine ⟨child, hchild, hchild, ?_⟩
  rw [Node.toValue, Arena.copyOut_eq_valueAt, h]

/-- The copy is of the kind that the node says. -/
theorem kind_eq (h : n.Copied node v) : v.kind = n.kind := by
  have hcopy := h.copyNode_eq
  rw [Arena.copyNode] at hcopy
  split at hcopy
  · next kind hkind =>
    obtain ⟨items, -, hv⟩ := bind_eq_ok_iff.1 hcopy
    rw [hkind, ← pure_eq_ok_iff.1 hv]
    rfl
  · next kind hkind =>
    obtain ⟨entries, -, hv⟩ := bind_eq_ok_iff.1 hcopy
    rw [hkind, ← pure_eq_ok_iff.1 hv]
    rfl
  · next hseq hdict =>
    have hleaf : Arena.leafValue n node = .ok v := hcopy
    rw [Arena.leafValue] at hleaf
    split at hleaf
    case h_5 hkind =>
      split at hleaf
      · cases hleaf
      · cases hleaf
        exact hkind.symm
    case h_8 kind hkind => exact absurd hkind (hseq kind)
    case h_9 kind hkind => exact absurd hkind (hdict kind)
    all_goals
      next hkind =>
      cases hleaf
      exact hkind.symm

/-- All entries can be read in place. Their keys are different, and under each key the copy has what
is copied from the entry. -/
theorem entries_rel (h : n.Copied node v) :
    n.entries.length = n.entryCount ∧ (∀ i (hi : i < n.entries.length),
      n.entry? i = some n.entries[i]) ∧ (n.entries.map Prod.fst).Nodup ∧
      ∀ key, Option.Rel (fun child w => child.Copied node w) (n.entries.lookup key)
        (v.lookup? key) := by
  by_cases hkind : ∃ kind, n.kind = .dict kind
  · obtain ⟨kind, hkind⟩ := hkind
    have hcopy := h.copyNode_eq
    rw [Arena.copyNode, hkind] at hcopy
    obtain ⟨copied, hcopied, hv⟩ := bind_eq_ok_iff.1 hcopy
    obtain ⟨read, hread, hnodup, -, hlookup⟩ := exists_read_of_copyEntries hcopied
    have hcount : n.entryCount = n.length := by rw [entryCount, hkind]
    have hlength : read.length = n.entryCount := by
      rw [hcount, ← hread.length_eq, List.length_range']
    -- what copying read at a position is what is found there in place
    have hmet : ∀ i (hi : i < read.length),
        ∃ child, n.entry? i = some (read[i].1, child) ∧ child.Copied node read[i].2 := by
      intro i hi
      obtain ⟨reference, hreference, hvalue⟩ := hread.get (hread.length_eq ▸ hi) hi
      simp only [List.get_eq_getElem, List.getElem_range', Nat.zero_add, Nat.one_mul]
        at hreference hvalue
      obtain ⟨child, hchild, hchildCopied⟩ := of_valueAt hvalue
      exact ⟨child, entry?_of_entryReference hreference hchild, hchildCopied⟩
    obtain ⟨hrel, hget⟩ := Arena.entries_eq_of_entry?
      (R := fun (child : Node) w => child.Copied node w) hlength.symm hmet
    have hkeys := Arena.keys_eq (hrel.imp fun _ _ h => h.1)
    refine ⟨hrel.length_eq.trans hlength, hget, hkeys ▸ hnodup, fun key => ?_⟩
    have hchild : v.lookup? key = read.lookup key := by
      rw [← pure_eq_ok_iff.1 hv]
      exact (hlookup key).trans (Option.or_none ..)
    rw [hchild]
    exact Arena.lookup_rel hrel key
  · -- neither a node of another kind nor its copy has entries
    have hleaf : ∀ kind, n.kind ≠ .dict kind := fun kind heq => hkind ⟨kind, heq⟩
    have hcount : n.entryCount = 0 := by
      rw [entryCount]
      split
      · next kind heq => exact absurd heq (hleaf kind)
      · rfl
    have hentries : n.entries = [] := by
      rw [entries, hcount, List.range_zero, List.filterMap_nil]
    have hnone : ∀ key, v.lookup? key = none := by
      intro key
      have hsame := h.kind_eq
      cases v with
      | dict kind _ entries => exact absurd hsame.symm (hleaf kind)
      | _ => rfl
    rw [hentries, hcount]
    refine ⟨rfl, fun i hi => absurd hi (Nat.not_lt_zero i), List.nodup_nil, fun key => ?_⟩
    rw [hnone key]
    exact .none

/-- Whatever is found in place is what the copy has under the key. -/
theorem exists_lookup? {key : String} (h : n.Copied node v) (hfound : n.lookup? key = some child) :
    ∃ w, v.lookup? key = some w ∧ child.Copied node w := by
  obtain ⟨hcount, hentry, hnodup, hrel⟩ := h.entries_rel
  obtain ⟨i, -, hi, hplace⟩ := entry?_of_search hfound
  rw [← hcount] at hi
  rw [hentry i hi] at hplace
  have hlookup : n.entries.lookup key = some child := by
    have hself := lookup_of_nodup hnodup hi
    rwa [Option.some.inj hplace] at hself
  have hsame := hrel key
  rw [hlookup] at hsame
  cases hcopy : v.lookup? key with
  | none =>
    rw [hcopy] at hsame
    cases hsame
  | some w =>
    rw [hcopy] at hsame
    cases hsame with
    | some hchild => exact ⟨w, rfl, hchild⟩

/-- Looking a key up in place and in the copy agree on all keys exactly when the keys ascend. -/
theorem isSome_lookup?_iff (h : n.Copied node v) :
    (∀ key, (n.lookup? key).isSome ↔ (v.lookup? key).isSome) ↔ Arena.Ascending n.entries := by
  obtain ⟨hcount, hentry, hnodup, hrel⟩ := h.entries_rel
  have hsome : ∀ key, (n.entries.lookup key).isSome ↔ (v.lookup? key).isSome := by
    intro key
    have hsame := hrel key
    revert hsame
    cases n.entries.lookup key <;> cases v.lookup? key <;> intro hsame
    · rfl
    · cases hsame
    · cases hsame
    · rfl
  constructor
  · intro hagree
    refine List.pairwise_iff_getElem.2 fun i j hi hj hij => ?_
    -- a search that finds every key halves between keys that stand in order
    have hfinds : ∀ k (hk : k < n.entries.length), 0 ≤ k → k < n.entryCount →
        (n.search n.entries[k].1 (n.entryCount + 1) 0 n.entryCount).isSome := by
      intro k hk _ _
      rw [← lookup?, hagree, ← hsome, lookup_of_nodup hnodup hk]
      rfl
    exact order_of_search hentry hnodup (Nat.lt_succ_self _) hcount.ge hfinds hi hj (Nat.zero_le i)
      hij (hcount ▸ hj)
  · intro hascending key
    rw [Arena.lookup?_eq_lookup hcount hentry hascending, hsome]

/-- The number in a node and that in its copy are the same exactly when the word is the number
widened. -/
theorem toInt?_eq_iff (h : n.Copied node v) : n.toInt? = v.toInt? ↔ n.Widened := by
  by_cases hinteger : ∃ kind, n.kind = .integer kind
  · obtain ⟨kind, hkind⟩ := hinteger
    have hcopy := h.copyNode_eq
    rw [Arena.copyNode, hkind] at hcopy
    have hleaf : Arena.leafValue n node = .ok v := hcopy
    rw [Arena.leafValue, hkind] at hleaf
    obtain rfl := Except.ok.inj hleaf
    have hwidened : n.Widened ↔
        (kind.toWord (kind.ofWord (UInt64.ofNat n.word))).toNat = n.word := by
      refine ⟨fun hw => hw kind hkind, fun hw other hother => ?_⟩
      obtain rfl := Kind.integer.inj (hkind.symm.trans hother)
      exact hw
    rw [hwidened]
    by_cases hwide : kind = .uint64
    · -- such a word is its number already
      subst hwide
      have hbits : (IntegerKind.uint64.ofWord (UInt64.ofNat n.word)).toNat = n.word :=
        UInt64.toNat_ofNat_of_lt n.word_lt
      have hsame : (IntegerKind.uint64.toWord
          (IntegerKind.uint64.ofWord (UInt64.ofNat n.word))).toNat = n.word :=
        (BitVec.toNat_setWidth_of_le (IntegerKind.width_le .uint64)).trans hbits
      refine iff_of_true ?_ hsame
      rw [toInt?, hkind, Value.toInt?]
      simp only [IntegerKind.toInt, IntegerKind.signed, Bool.false_eq_true, if_false, hbits]
      by_cases hlt : n.word < 0x8000000000000000
      · rw [if_pos hlt, if_pos (by omega)]
      · rw [if_neg hlt, if_neg (by omega)]
    · -- the other kinds are read as signed, and widening keeps the sign
      have hvalue : (Value.integer kind (kind.ofWord (UInt64.ofNat n.word))).toInt? =
          some (kind.toInt (kind.ofWord (UInt64.ofNat n.word))) :=
        if_pos (IntegerKind.toInt_lt hwide _)
      rw [Arena.Laid.toInt?_of_ne hkind hwide, hvalue, ← IntegerKind.signedWord_toWord hwide,
        Option.some_inj, signedWord_inj n.word_lt (UInt64.toNat_lt _)]
      exact eq_comm
  · -- neither a node of another kind nor its copy is an integer
    have hother : ∀ kind, n.kind ≠ .integer kind := fun kind heq => hinteger ⟨kind, heq⟩
    have hnode : n.toInt? = none := by
      rw [toInt?]
      split
      · next heq => exact absurd heq (hother _)
      · next heq => exact absurd heq (hother _)
      · rfl
    have hvalue : v.toInt? = none := by
      have hsame := h.kind_eq
      cases v with
      | integer kind bits => exact absurd hsame.symm (hother kind)
      | _ => rfl
    exact iff_of_true (hnode.trans hvalue.symm) fun kind heq => absurd heq (hother kind)

end Copied

end Node

namespace Region

variable {r : Region} {m : Memory} {n : Node} {node : NodeId} {v : Value}

/-- Every node that is obtained is the one at its offset. -/
theorem Obtains.node_eq (h : r.Obtains m n) : n.arena.node n.offset = .ok n := by
  refine h.of_child (motive := fun n => n.arena.node n.offset = .ok n) (fun n h => ?_)
    fun n child reference _ h => ?_
  · rw [Region.root, bind_eq_ok_iff] at h
    obtain ⟨a, -, hn⟩ := h
    generalize (m.load64 rootAt).toNat = offset at hn
    obtain ⟨-, rfl, rfl⟩ := Arena.whole_of_node hn
    exact hn
  · have hchild := toOption_eq_some_iff.1 h
    rw [Node.child] at hchild
    split at hchild
    · cases hchild
    · obtain ⟨-, harena, hoffset⟩ := Arena.whole_of_node hchild
      rwa [harena, hoffset]

/-- However a node was reached, in whatever bytes, and wherever it can be copied: what is found
under a key in place is what the copy has there, every key of the copy is found exactly when the
keys ascend in the arena, and an integer is the same exactly when its word is its number widened. -/
theorem Obtains.agrees_iff (h : r.Obtains m n) (hcopy : n.toValue node = .ok v) :
    (∀ key child, n.lookup? key = some child →
      ∃ w, v.lookup? key = some w ∧ child.toValue node = .ok w) ∧
    ((∀ key, (n.lookup? key).isSome ↔ (v.lookup? key).isSome) ↔ Arena.Ascending n.entries) ∧
    (n.toInt? = v.toInt? ↔ n.Widened) := by
  have hcopied : n.Copied node v := ⟨h.node_eq, hcopy⟩
  refine ⟨fun key child hfound => ?_, hcopied.isSome_lookup?_iff, hcopied.toInt?_eq_iff⟩
  obtain ⟨w, hw, hchild⟩ := hcopied.exists_lookup? hfound
  exact ⟨w, hw, hchild.toValue_eq⟩

/-- A map with the keys "b" and "a" in this order, whose second value is an integer of one byte in a
word that needs two. -/
def unsorted : Memory :=
  ((((format 96 (Memory.zeros 160)).store32 stateAt RegionState.ready.code).store64 usedAt
    96).store64 rootAt 56).store 64
      (Arena.Writer.nodeBytes .text 1 [98, 0, 0, 0, 0, 0, 0, 0] ++
        Arena.Writer.nodeBytes .null 0 [] ++
        Arena.Writer.nodeBytes .text 1 [97, 0, 0, 0, 0, 0, 0, 0] ++
        Arena.Writer.nodeBytes (.integer .int8) 0 [0, 1, 0, 0, 0, 0, 0, 0] ++
        Arena.Writer.nodeBytes (.dict .map) 2 (Arena.Writer.references [0, 16, 24, 40]))

/-- The copy has a key that is not found in place, and under the other key in place there is another
integer than in the copy. -/
theorem Obtains.agrees_iff_unsorted :
    let r : Region := ⟨⟨0, "scene", 160, false⟩, 64, 96⟩
    ∃ n child v w, r.root unsorted = .ok n ∧ n.toValue 0 = .ok v ∧
      ¬(∀ key, (n.lookup? key).isSome ↔ (v.lookup? key).isSome) ∧
      n.lookup? "a" = some child ∧ v.lookup? "a" = some w ∧ child.toValue 0 = .ok w ∧
      child.toInt? = some 256 ∧ child.toInt? ≠ w.toInt? := by
  intro r
  have hseen : (r.root unsorted).toOption.map (fun n =>
      (n.entries.map Prod.fst, (n.toValue 0).toOption.isSome)) = some (["b", "a"], true) := by
    decide +kernel
  have hfound : ((r.root unsorted).toOption.bind fun n => n.lookup? "a").map
      (fun child => (child.toInt?, child.kind, child.word)) =
        some (some 256, .integer .int8, 256) := by
    decide +kernel
  obtain ⟨n, hn, hlooks⟩ := Option.map_eq_some_iff.1 hseen
  obtain ⟨hkeys, hcopied⟩ := Prod.mk.inj hlooks
  obtain ⟨v, hv⟩ := Option.isSome_iff_exists.1 hcopied
  obtain ⟨child, hlookup, hlooks⟩ := Option.map_eq_some_iff.1 hfound
  simp only [Prod.mk.injEq] at hlooks
  obtain ⟨hint, hkind, hword⟩ := hlooks
  rw [hn, Option.bind_some] at hlookup
  have hroot : r.Obtains unsorted n := .root (toOption_eq_some_iff.1 hn)
  obtain ⟨hagree, hascending, -⟩ := hroot.agrees_iff (toOption_eq_some_iff.1 hv)
  obtain ⟨w, hw, hchild⟩ := hagree "a" child hlookup
  obtain ⟨-, -, hwidened⟩ := (hroot.lookup hlookup).agrees_iff hchild
  refine ⟨n, child, v, w, toOption_eq_some_iff.1 hn, toOption_eq_some_iff.1 hv,
    fun hall => ?_, hlookup, hw, hchild, hint, fun hsame => ?_⟩
  · -- the two keys descend
    have hpairwise := (List.pairwise_map (f := Prod.fst)
      (R := fun a b => Utf8.order a b = .lt)).2 (hascending.1 hall)
    rw [hkeys] at hpairwise
    exact absurd hpairwise (by decide +kernel)
  · -- the word has more than the eight bits of its kind
    have hnarrow := hwidened.1 hsame .int8 hkind
    rw [hword] at hnarrow
    exact absurd hnarrow (by decide)

end Region

end SharedExchange
