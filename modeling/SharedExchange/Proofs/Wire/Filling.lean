import Mathlib.Tactic
import SharedExchange.Wire.Sink
import SharedExchange.Proofs.Wire.Measure

/-! # What is measured is what is written

A value is measured, reckoned and written by recursions of their own, and it is written into sinks
that know nothing of each other. A sink that takes two pieces as it takes both at once
(`Additive`) takes the pieces of a value as it takes its wire form (`write_eq`), so the list that
grows holds the wire form, and the buffer of fixed length has room for every piece exactly when it
has room for as many bytes as were measured.

How deep a value may nest is put in terms of its nodes: `Lies` says how many levels below the root
a node lies, and `levels` is the most of them (`levels_le_iff`). -/

namespace SharedExchange

variable {σ : Type} {put : List UInt8 → σ → Option σ}

/-! ## Sinks -/

/-- A sink that takes two pieces, one after the other, as it takes both at once. -/
structure Additive (put : List UInt8 → σ → Option σ) : Prop where
  nil : ∀ out, put [] out = some out
  append : ∀ front back out, put (front ++ back) out = put front out >>= put back

/-- A buffer that grows takes bytes in parts or at once. -/
theorem additive_growing : Additive growing where
  nil out := by rw [growing, List.append_nil]
  append front back out := by
    change some _ = some _
    rw [List.append_assoc]

namespace Cursor

variable {c : Cursor} {piece : List UInt8}

/-- There is no room for a piece that ends behind the end of the buffer. -/
theorem put?_eq_none (h : c.buffer.length < c.position + piece.length) : c.put? piece = none := by
  rw [put?, dif_neg (Nat.not_le.2 h)]

/-- A piece that ends inside of the buffer stands where the position was, and the bytes behind it
stay. -/
theorem exists_put? (h : c.position + piece.length ≤ c.buffer.length) :
    ∃ c', c.put? piece = some c' ∧ c'.position = c.position + piece.length ∧
      c'.buffer.length = c.buffer.length ∧
      c'.buffer.take c'.position = c.buffer.take c.position ++ piece ∧
      c'.buffer.drop c'.position = c.buffer.drop (c.position + piece.length) := by
  have hfront : (c.buffer.take c.position ++ piece).length = c.position + piece.length := by
    rw [List.length_append, List.length_take, Nat.min_eq_left c.inside]
  rw [put?, dif_pos h]
  refine ⟨_, rfl, rfl, ?_, ?_, ?_⟩
  · simp only [List.length_append, List.length_take, List.length_drop]
    omega
  · exact List.take_left' hfront
  · exact List.drop_left' hfront

/-- Cursors are told apart by what is in front of their positions and what is behind them. -/
theorem eq_of_halves {c' : Cursor} (hposition : c'.position = c.position)
    (htake : c'.buffer.take c'.position = c.buffer.take c.position)
    (hdrop : c'.buffer.drop c'.position = c.buffer.drop c.position) : c' = c := by
  refine Cursor.ext ?_ hposition
  rw [← List.take_append_drop c'.position c'.buffer, htake, hdrop, List.take_append_drop]

/-- A buffer of a fixed size takes bytes in parts or at once. -/
theorem additive_put? : Additive put? where
  nil c := by
    have hinside : c.position + ([] : List UInt8).length ≤ c.buffer.length := c.inside
    obtain ⟨c', hput, hposition, -, htake, hdrop⟩ := exists_put? hinside
    rw [hput, eq_of_halves hposition (htake.trans (List.append_nil _)) hdrop]
  append front back c := by
    rw [Option.bind_eq_bind]
    by_cases hfirst : c.position + front.length ≤ c.buffer.length
    · obtain ⟨c', hput, hposition, hlength, htake, hdrop⟩ := exists_put? hfirst
      rw [hput, Option.bind_some]
      -- the front fits, so everything fits exactly when the back does behind it
      by_cases hboth : c.position + (front ++ back).length ≤ c.buffer.length
      · have hsecond : c'.position + back.length ≤ c'.buffer.length := by
          rw [List.length_append] at hboth
          omega
        obtain ⟨c₁, hput₁, hposition₁, -, htake₁, hdrop₁⟩ := exists_put? hboth
        obtain ⟨c₂, hput₂, hposition₂, -, htake₂, hdrop₂⟩ := exists_put? hsecond
        have hrest : c'.buffer.drop (c'.position + back.length) =
            c.buffer.drop (c.position + (front ++ back).length) := by
          rw [← List.drop_drop, hdrop, List.drop_drop, List.length_append, Nat.add_assoc]
        have hsame : c₁ = c₂ := by
          refine eq_of_halves ?_ ?_ ?_
          · rw [hposition₁, hposition₂, hposition, List.length_append, Nat.add_assoc]
          · rw [htake₁, htake₂, htake, List.append_assoc]
          · rw [hdrop₁, hdrop₂, hrest]
        rw [hput₁, hput₂, hsame]
      · have hsecond : c'.buffer.length < c'.position + back.length := by
          rw [List.length_append] at hboth
          omega
        rw [put?_eq_none (Nat.not_le.1 hboth), put?_eq_none hsecond]
    · have hboth : c.buffer.length < c.position + (front ++ back).length := by
        rw [List.length_append]
        omega
      rw [put?_eq_none hboth, put?_eq_none (Nat.not_le.1 hfirst), Option.bind_none]

end Cursor

namespace Value

/-! ## Writing piece by piece -/

/-- A text is written as its wire form. -/
theorem writeText_eq (h : Additive put) (s : String) (out : σ) :
    writeText put s out = put (wireText s) out :=
  (h.append _ _ out).symm

/-- Numbers that are put down one by one. -/
theorem foldlM_put (h : Additive put) (words : List UInt32) (out : σ) :
    words.foldlM (fun out word => put (LittleEndian.toBytes 4 word.toNat) out) out =
      put (words.flatMap fun word => LittleEndian.toBytes 4 word.toNat) out := by
  induction words generalizing out with
  | nil => exact (h.nil out).symm
  | cons word words ih =>
    rw [List.foldlM_cons, List.flatMap_cons, h.append]
    exact bind_congr ih

mutual

/-- Writing a value piece by piece is putting its wire form down at once. -/
theorem write_eq (h : Additive put) (v : Value) (out : σ) : v.write put out = put v.wire out := by
  have hbehind : ∀ bytes, put (v.kind.byte :: bytes) out = put [v.kind.byte] out >>= put bytes :=
    fun bytes => h.append [v.kind.byte] bytes out
  -- the byte of the kind goes first, so what is left is the payload
  rw [write]
  cases v with
  | null =>
    rw [wire]
    exact bind_pure _
  | bool b => exact (hbehind _).symm
  | integer kind bits => exact (hbehind _).symm
  | float32 bits => exact (hbehind _).symm
  | float64 bits => exact (hbehind _).symm
  | floats shape components =>
    rw [wire]
    exact (bind_congr (foldlM_put h components.toList)).trans (hbehind _).symm
  | text node s =>
    rw [wire]
    exact (bind_congr (writeText_eq h s)).trans (hbehind _).symm
  | seq kind node items =>
    rw [wire]
    refine (bind_congr fun out => ?_).trans (hbehind _).symm
    rw [h.append]
    exact bind_congr (writeItems_eq h items)
  | dict kind node entries =>
    rw [wire]
    refine (bind_congr fun out => ?_).trans (hbehind _).symm
    rw [h.append]
    exact bind_congr (writeEntries_eq h entries)

/-- Items are written as their wire form. -/
theorem writeItems_eq (h : Additive put) (items : List Value) (out : σ) :
    writeItems put items out = put (wireItems items) out := by
  cases items with
  | nil => exact (h.nil out).symm
  | cons v items =>
    rw [writeItems, wireItems, h.append, write_eq h v]
    exact bind_congr (writeItems_eq h items)

/-- Entries are written as their wire form. -/
theorem writeEntries_eq (h : Additive put) (entries : List (String × Value)) (out : σ) :
    writeEntries put entries out = put (wireEntries entries) out := by
  cases entries with
  | nil => exact (h.nil out).symm
  | cons entry entries =>
    obtain ⟨key, v⟩ := entry
    rw [writeEntries, wireEntries, h.append, writeText_eq h key]
    refine bind_congr fun out => ?_
    rw [h.append, write_eq h v]
    exact bind_congr (writeEntries_eq h entries)

end

/-! ## How deep the nodes lie -/

/-- `w` is a node of a value and lies `depth` levels below the root. -/
inductive Lies : Value → Nat → Value → Prop
  | root (v : Value) : Lies v 0 v
  | item {kind : SeqKind} {node : NodeId} {items : List Value} {child w : Value} {depth : Nat}
      (hchild : child ∈ items) (h : Lies child depth w) : Lies (seq kind node items) (depth + 1) w
  | entry {kind : DictKind} {node : NodeId} {entries : List (String × Value)} {key : String}
      {child w : Value} {depth : Nat} (hchild : (key, child) ∈ entries) (h : Lies child depth w) :
      Lies (dict kind node entries) (depth + 1) w

/-- An item has fewer levels than the items have. -/
theorem levels_lt_itemLevels {items : List Value} {child : Value} (h : child ∈ items) :
    child.levels < itemLevels items := by
  induction items with
  | nil => cases h
  | cons v items ih =>
    rw [itemLevels]
    rcases List.mem_cons.1 h with rfl | h
    · omega
    · exact Nat.lt_of_lt_of_le (ih h) (le_max_right ..)

/-- The value of an entry has fewer levels than the entries have. -/
theorem levels_lt_entryLevels {entries : List (String × Value)} {key : String} {child : Value}
    (h : (key, child) ∈ entries) : child.levels < entryLevels entries := by
  induction entries with
  | nil => cases h
  | cons entry entries ih =>
    obtain ⟨key', v⟩ := entry
    rw [entryLevels]
    rcases List.mem_cons.1 h with heq | h
    · obtain ⟨-, rfl⟩ := Prod.mk.inj heq
      omega
    · exact Nat.lt_of_lt_of_le (ih h) (le_max_right ..)

/-- One of the items reaches as deep as all of them. -/
theorem exists_deepest_item (items : List Value) :
    itemLevels items = 0 ∨ ∃ child ∈ items, itemLevels items = child.levels + 1 := by
  induction items with
  | nil => exact .inl rfl
  | cons v items ih =>
    right
    rw [itemLevels]
    rcases Nat.le_total (itemLevels items) (v.levels + 1) with hle | hle
    · exact ⟨v, List.mem_cons_self, max_eq_left hle⟩
    · obtain hzero | ⟨child, hchild, hdeepest⟩ := ih
      · omega
      · exact ⟨child, List.mem_cons_of_mem _ hchild, by rw [max_eq_right hle, hdeepest]⟩

/-- Some entry nests as deep as the entries do, if there is any. -/
theorem exists_deepest_entry (entries : List (String × Value)) :
    entryLevels entries = 0 ∨
      ∃ key child, (key, child) ∈ entries ∧ entryLevels entries = child.levels + 1 := by
  induction entries with
  | nil => exact .inl rfl
  | cons entry entries ih =>
    obtain ⟨key, v⟩ := entry
    right
    rw [entryLevels]
    rcases Nat.le_total (entryLevels entries) (v.levels + 1) with hle | hle
    · exact ⟨key, v, List.mem_cons_self, max_eq_left hle⟩
    · obtain hzero | ⟨key, child, hchild, hdeepest⟩ := ih
      · omega
      · exact ⟨key, child, List.mem_cons_of_mem _ hchild, by rw [max_eq_right hle, hdeepest]⟩

/-- A value lies no deeper than there are levels. -/
theorem Lies.le_levels {v w : Value} {depth : Nat} (h : v.Lies depth w) : depth ≤ v.levels := by
  induction h with
  | root => exact Nat.zero_le _
  | item hchild _ ih =>
    have hlt := levels_lt_itemLevels hchild
    rw [levels]
    omega
  | entry hchild _ ih =>
    have hlt := levels_lt_entryLevels hchild
    rw [levels]
    omega

/-- Some value lies as deep as there are levels. -/
theorem exists_lies_levels (v : Value) : ∃ w, v.Lies v.levels w := by
  generalize hn : v.levels = n
  induction n generalizing v with
  | zero => exact ⟨v, .root v⟩
  | succ n ih =>
    cases v with
    | seq kind node items =>
      rw [levels] at hn
      obtain hzero | ⟨child, hchild, hdeepest⟩ := exists_deepest_item items
      · omega
      · obtain ⟨w, hw⟩ := ih child (by omega)
        exact ⟨w, .item hchild hw⟩
    | dict kind node entries =>
      rw [levels] at hn
      obtain hzero | ⟨key, child, hchild, hdeepest⟩ := exists_deepest_entry entries
      · omega
      · obtain ⟨w, hw⟩ := ih child (by omega)
        exact ⟨w, .entry hchild hw⟩
    | _ => cases hn

/-- A value has at most so many levels as every one of its nodes lies below the root. -/
theorem levels_le_iff {v : Value} {n : Nat} :
    v.levels ≤ n ↔ ∀ depth w, v.Lies depth w → depth ≤ n := by
  constructor
  · exact fun h depth w hlies => hlies.le_levels.trans h
  · intro h
    obtain ⟨w, hw⟩ := v.exists_lies_levels
    exact h _ w hw

/-! ## Values that nest too deep -/

/-- Of two steps that fail, one does. -/
theorem error_of_bind {α β : Type} {first : Except Fault α} {next : α → Except Fault β}
    {fault : Fault} (h : first >>= next = .error fault) :
    first = .error fault ∨ ∃ a, first = .ok a ∧ next a = .error fault := by
  cases first with
  | error fault' =>
    cases h
    exact .inl rfl
  | ok a => exact .inr ⟨a, rfl, h⟩

mutual

/-- There is nothing else that a measure can fail with. -/
theorem measure_error (v : Value) {depth : Nat} {fault : Fault}
    (h : v.measure depth = .error fault) : fault = .nestingTooDeep nestingLimit := by
  by_cases hdepth : nestingLimit < depth
  · rw [measure_tooDeep v hdepth] at h
    exact (Except.error.inj h).symm
  · cases v with
    | seq kind node items =>
      rw [measure, if_neg hdepth] at h
      obtain h | ⟨length, -, h⟩ := error_of_bind h
      · exact measureItems_error items h
      · cases h
    | dict kind node entries =>
      rw [measure, if_neg hdepth] at h
      obtain h | ⟨length, -, h⟩ := error_of_bind h
      · exact measureEntries_error entries h
      · cases h
    | _ => simp [measure, hdepth] at h

/-- Items that cannot be measured nest too deep. -/
theorem measureItems_error (items : List Value) {depth : Nat} {fault : Fault}
    (h : measureItems depth items = .error fault) : fault = .nestingTooDeep nestingLimit := by
  cases items with
  | nil => cases h
  | cons v items =>
    rw [measureItems] at h
    obtain h | ⟨length, -, h⟩ := error_of_bind h
    · exact measure_error v h
    · obtain h | ⟨others, -, h⟩ := error_of_bind h
      · exact measureItems_error items h
      · cases h

/-- Entries that cannot be measured nest too deep. -/
theorem measureEntries_error (entries : List (String × Value)) {depth : Nat} {fault : Fault}
    (h : measureEntries depth entries = .error fault) :
    fault = .nestingTooDeep nestingLimit := by
  cases entries with
  | nil => cases h
  | cons entry entries =>
    obtain ⟨key, v⟩ := entry
    rw [measureEntries] at h
    obtain h | ⟨length, -, h⟩ := error_of_bind h
    · exact measure_error v h
    · obtain h | ⟨others, -, h⟩ := error_of_bind h
      · exact measureEntries_error entries h
      · cases h

end

/-- What a value is measured by, or refused with. -/
theorem measure_eq_ite (v : Value) :
    v.measure 0 = if v.levels ≤ nestingLimit then .ok v.wireLength
      else .error (.nestingTooDeep nestingLimit) := by
  split
  · next hlevels => exact v.measure_eq (by omega)
  · next hlevels =>
    cases hmeasure : v.measure 0 with
    | error fault => rw [measure_error v hmeasure]
    | ok n =>
      have hshallow := (v.of_measure hmeasure).2
      omega

/-! ## All ways of writing -/

/-- The list that grows holds the wire form at the end. -/
theorem write_growing (v : Value) (out : List UInt8) :
    v.write growing out = some (out ++ v.wire) :=
  write_eq additive_growing v out

/-- The buffer holds the wire form at its front, if it is as long. -/
theorem write_start (v : Value) (buffer : List UInt8) :
    (v.write Cursor.put? (.start buffer)).map (fun c => (c.position, c.buffer)) =
      if buffer.length < v.wireLength then none
      else some (v.wireLength, v.wire ++ buffer.drop v.wireLength) := by
  have hlength := v.length_wire
  rw [write_eq Cursor.additive_put?]
  split
  · next hshort =>
    have hnone : (Cursor.start buffer).put? v.wire = none :=
      Cursor.put?_eq_none (by simp only [Cursor.start_buffer, Cursor.start_position]; omega)
    rw [hnone, Option.map_none]
  · next hroom =>
    have hinside : (Cursor.start buffer).position + v.wire.length ≤
        (Cursor.start buffer).buffer.length := by
      simp only [Cursor.start_buffer, Cursor.start_position]
      omega
    obtain ⟨c, hput, hposition, -, htake, hdrop⟩ := Cursor.exists_put? hinside
    have hbuffer : c.buffer = v.wire ++ buffer.drop v.wireLength := by
      rw [← List.take_append_drop c.position c.buffer, htake, hdrop, hlength]
      simp only [Cursor.start_buffer, Cursor.start_position, List.take_zero, List.nil_append,
        Nat.zero_add]
    rw [hput, Option.map_some, hbuffer, hposition, hlength, Cursor.start_position, Nat.zero_add]

/-- A value is measured, written into a list and written into a buffer with the same outcome: it
nests too deep for all of them, or it is written in as many bytes as were measured and reckoned.
Only then, and only when the buffer has that many, it is written over; and then no piece ends behind
the end of it. -/
theorem encodeInto_eq_ite (v : Value) (buffer : List UInt8) :
    (v.levels ≤ nestingLimit ↔ ∀ depth w, v.Lies depth w → depth ≤ nestingLimit) ∧
      v.measure 0 = (if v.levels ≤ nestingLimit then .ok v.wireLength
        else .error (.nestingTooDeep nestingLimit)) ∧
      v.encode = (if v.levels ≤ nestingLimit then .ok v.wire
        else .error (.nestingTooDeep nestingLimit)) ∧
      v.wire.length = v.wireLength ∧
      v.write growing [] = some v.wire ∧
      v.encodeInto buffer =
        (if nestingLimit < v.levels then (.error (.nestingTooDeep nestingLimit), buffer)
        else if buffer.length < v.wireLength then
          (.error (.bufferOverflow buffer.length v.wireLength), buffer)
        else (.ok v.wireLength, v.wire ++ buffer.drop v.wireLength)) ∧
      (v.write Cursor.put? (.start buffer)).map (fun c => (c.position, c.buffer)) =
        if buffer.length < v.wireLength then none
        else some (v.wireLength, v.wire ++ buffer.drop v.wireLength) := by
  refine ⟨levels_le_iff, v.measure_eq_ite, ?_, v.length_wire, v.write_growing [], ?_,
    v.write_start buffer⟩
  · rw [encode, measure_eq_ite]
    split <;> rfl
  · rw [encodeInto, measure_eq_ite]
    by_cases hlevels : v.levels ≤ nestingLimit
    · simp only [hlevels, Nat.not_lt.2 hlevels, if_true, if_false, length_wire]
    · simp only [hlevels, Nat.not_le.1 hlevels, if_true, if_false]

end Value
end SharedExchange
