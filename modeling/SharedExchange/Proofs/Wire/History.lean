import Mathlib.Tactic
import SharedExchange.Proofs.Value.History
import SharedExchange.Proofs.Wire.Filling

/-! # The wire form and how a value was made

The wire form has no trace of the way in which a value came about: of the order in which keys were
set, of what was overwritten or removed, of which nodes are shared. Two values with one content nest
equally deep and have one wire form (`encode_eq_of_content_eq`), and the wire form of an ordered
value has the keys of each container in ascending order (`spelled_wire`). Both together hold between
any two histories (`History.encode_eq_of_alike`). -/

namespace SharedExchange.Value

/-! ## Content and depth -/

mutual

/-- A value nests as deep as its content. -/
theorem levels_content (v : Value) : v.content.levels = v.levels := by
  cases v with
  | seq kind node items => rw [content, levels, levels, itemLevels_itemContents items]
  | dict kind node entries => rw [content, levels, levels, entryLevels_entryContents entries]
  | _ => simp [content, levels]

/-- Items nest as deep as their contents. -/
theorem itemLevels_itemContents (items : List Value) :
    itemLevels (itemContents items) = itemLevels items := by
  cases items with
  | nil => rfl
  | cons v items =>
    rw [itemContents, itemLevels, itemLevels, levels_content v, itemLevels_itemContents items]

/-- Entries nest as deep as their contents. -/
theorem entryLevels_entryContents (entries : List (String × Value)) :
    entryLevels (entryContents entries) = entryLevels entries := by
  cases entries with
  | nil => rfl
  | cons entry entries =>
    obtain ⟨key, v⟩ := entry
    rw [entryContents, entryLevels, entryLevels, levels_content v,
      entryLevels_entryContents entries]

end

/-- A value is written unless it nests too deep. -/
theorem encode_eq_ite (v : Value) :
    v.encode = if v.levels ≤ nestingLimit then .ok v.wire
      else .error (.nestingTooDeep nestingLimit) := by
  rw [encode, measure_eq_ite]
  split <;> rfl

/-- Sharing leaves no trace, be the value written or refused. -/
theorem encode_eq_of_content_eq {v w : Value} (h : v.content = w.content) :
    v.encode = w.encode := by
  rw [encode_eq_ite, encode_eq_ite, ← wire_content v, ← wire_content w, ← levels_content v,
    ← levels_content w, h]

/-! ## Keys in the wire form -/

/-- The bytes are written for the value, with the keys of every keyed container in ascending order:
behind the kind and the count there are, for each key in its turn, the key and the bytes of its
child. -/
inductive Spelled : Value → List UInt8 → Prop
  | leaf {v : Value} (hitems : v.items? = none) (hentries : v.entries? = none) : Spelled v v.wire
  | seq {kind : SeqKind} {node : NodeId} {items : List Value} {forms : List (List UInt8)}
      (h : List.Forall₂ Spelled items forms) :
    Spelled (.seq kind node items)
      ((Kind.seq kind).byte :: (LittleEndian.toBytes 4 items.length ++ forms.flatten))
  | dict {kind : DictKind} {node : NodeId} {entries : List (String × Value)}
      {forms : List (List UInt8)}
      (hascending : (entries.map Prod.fst).Pairwise fun a b => Utf8.order a b = .lt)
      (h : List.Forall₂ Spelled (entries.map Prod.snd) forms) :
    Spelled (.dict kind node entries)
      ((Kind.dict kind).byte :: (LittleEndian.toBytes 4 entries.length ++
        (List.zipWith (fun key form => wireText key ++ form) (entries.map Prod.fst)
          forms).flatten))

mutual

/-- The wire form of an ordered value has its keys in ascending order. -/
theorem spelled_wire (v : Value) (h : v.Ordered) : Spelled v v.wire := by
  cases v with
  | seq kind node items =>
    rw [Ordered] at h
    obtain ⟨forms, hforms, hwire⟩ := exists_forms_of_items items h
    rw [wire, hwire]
    exact .seq hforms
  | dict kind node entries =>
    rw [Ordered] at h
    obtain ⟨forms, hforms, hwire⟩ := exists_forms_of_entries entries h
    rw [wire, hwire]
    exact .dict (List.pairwise_map.2 (pairwise_of_entriesOrdered h).2) hforms
  | _ => exact .leaf rfl rfl

/-- Items that are ordered are spelled one after the other. -/
theorem exists_forms_of_items (items : List Value) (h : ItemsOrdered items) :
    ∃ forms, List.Forall₂ Spelled items forms ∧ wireItems items = forms.flatten := by
  cases items with
  | nil => exact ⟨[], .nil, rfl⟩
  | cons v items =>
    rw [ItemsOrdered] at h
    obtain ⟨forms, hforms, hwire⟩ := exists_forms_of_items items h.2
    refine ⟨v.wire :: forms, .cons (spelled_wire v h.1) hforms, ?_⟩
    rw [wireItems, hwire, List.flatten_cons]

/-- Entries that are ordered are spelled one after the other, each behind its key. -/
theorem exists_forms_of_entries (entries : List (String × Value)) {last : Option String}
    (h : EntriesOrdered last entries) :
    ∃ forms, List.Forall₂ Spelled (entries.map Prod.snd) forms ∧
      wireEntries entries = (List.zipWith (fun key form => wireText key ++ form)
        (entries.map Prod.fst) forms).flatten := by
  cases entries with
  | nil => exact ⟨[], .nil, rfl⟩
  | cons entry entries =>
    obtain ⟨key, v⟩ := entry
    rw [EntriesOrdered] at h
    obtain ⟨forms, hforms, hwire⟩ := exists_forms_of_entries entries h.2.2
    refine ⟨v.wire :: forms, .cons (spelled_wire v h.2.1) hforms, ?_⟩
    rw [wireEntries, hwire, List.map_cons, List.zipWith_cons_cons, List.flatten_cons,
      List.append_assoc]

end

/-! ## Two histories -/

/-- However two values were made, if they are alike then both are written as the same bytes or both
are refused for their depth; and in the bytes the keys of every keyed container are ascending. -/
theorem History.encode_eq_of_alike {made made' : List Value} {v w : Value} (hmade : History made)
    (hmade' : History made') (hv : v ∈ made) (hw : w ∈ made') (h : v.Alike w) :
    v.encode = w.encode ∧
      (v.encode = .error (.nestingTooDeep nestingLimit) ∨
        ∃ bytes, v.encode = .ok bytes ∧ Spelled v bytes) := by
  have hordered := hmade.ordered v hv
  refine ⟨encode_eq_of_content_eq ((alike_iff hordered (hmade'.ordered w hw)).1 h), ?_⟩
  rw [encode_eq_ite]
  split
  · exact .inr ⟨v.wire, rfl, spelled_wire v hordered⟩
  · exact .inl rfl

/-- A map of two pairs is written like one that came about by setting a key, editing the value under
it, setting another key once more and removing a third one. -/
theorem History.encode_eq_of_alike_edited :
    let v := dict .map 2 [("a", bool true), ("b", text 1 "x")]
    let w := dict .map 13 [("a", bool true), ("b", text 7 "x")]
    (∃ made, History made ∧ made.head? = some v) ∧ (∃ made, History made ∧ made.head? = some w) ∧
      v.Alike w ∧ v.encode = w.encode ∧ ∃ bytes, v.encode = .ok bytes ∧ Spelled v bytes := by
  intro v w
  let pairs := dict .map 9 [("b", text 8 "y"), ("c", text 8 "y")]
  let more := dict .map 10 [("a", text 7 "x"), ("b", text 8 "y"), ("c", text 8 "y")]
  let edited := dict .map 11 [("a", bool true), ("b", text 8 "y"), ("c", text 8 "y")]
  let again := dict .map 12 [("a", bool true), ("b", text 7 "x"), ("c", text 8 "y")]
  have hfirst : History [v, text 1 "x", bool true] := by
    have hpairs : ofPairs .map 2 [("b", text 1 "x"), ("a", bool true)] = v := by rfl
    refine .next (.next (.next .start (.scalar rfl)) (.text 1 "x")) (hpairs ▸ .ofPairs .map 2 ?_)
    simp
  have hsecond : History [w, again, edited, more, pairs, bool true, text 8 "y", text 7 "x"] := by
    have hpairs : ofPairs .map 9 [("c", text 8 "y"), ("b", text 8 "y")] = pairs := by rfl
    have hmore : pairs.insert? 10 "a" (text 7 "x") = some more := by rfl
    have hedited : more.updateIn (fun _ => bool true) 11 ["a"] = some edited := by rfl
    have hagain : edited.insert? 12 "b" (text 7 "x") = some again := by rfl
    have herased : again.erase? 13 "c" = some w := by rfl
    refine .next (.next (.next (.next (.next (.next (.next (.next .start (.text 7 "x"))
      (.text 8 "y")) (.scalar rfl)) (hpairs ▸ .ofPairs .map 9 ?_)) (.insert ?_ ?_ hmore))
      (.updateIn ?_ ?_ hedited)) (.insert ?_ ?_ hagain)) (.erase ?_ herased)
    all_goals simp
  have halike : v.Alike w :=
    (alike_iff (hfirst.ordered v List.mem_cons_self)
      (hsecond.ordered w List.mem_cons_self)).2 rfl
  obtain ⟨hsame, hdeep | hspelled⟩ :=
    hfirst.encode_eq_of_alike hsecond List.mem_cons_self List.mem_cons_self halike
  · rw [encode_eq_ite, if_pos (by decide)] at hdeep
    cases hdeep
  · exact ⟨⟨_, hfirst, rfl⟩, ⟨_, hsecond, rfl⟩, halike, hsame, hspelled⟩

end SharedExchange.Value
