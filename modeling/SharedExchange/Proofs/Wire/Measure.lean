import Mathlib.Tactic
import SharedExchange.Proofs.Wire.RoundTrip

/-! # The measure of a value

What is measured before a value is written is the length of what is then written (`length_wire`),
and a value that is measured is one that does not nest too deep (`of_measure`). So whoever makes
room for a value by its measure has exactly the room that it takes. -/

namespace SharedExchange.Value

/-! ## The length of the wire form -/

/-- A text takes its length and its bytes. -/
@[simp] theorem length_wireText (s : String) : (wireText s).length = 4 + Utf8.size s := by
  rw [wireText, List.length_append, LittleEndian.length_toBytes, Utf8.length_encode]

mutual

/-- The wire form has the length that is reckoned for it. -/
theorem length_wire (v : Value) : v.wire.length = v.wireLength := by
  cases v with
  | seq kind node items =>
    rw [wire, wireLength, List.length_cons, List.length_append, LittleEndian.length_toBytes,
      length_wireItems items]
    omega
  | dict kind node entries =>
    rw [wire, wireLength, List.length_cons, List.length_append, LittleEndian.length_toBytes,
      length_wireEntries entries]
    omega
  | text node s =>
    rw [wire, List.length_cons, length_wireText, wireLength, scalarLength]
    · omega
    all_goals simp
  | floats shape components =>
    simp [wire, wireLength, scalarLength, List.length_flatMap, Nat.mul_comm, Nat.add_comm]
  | _ => simp [wire, wireLength, scalarLength, Nat.add_comm]

/-- Items take the room that was measured for them. -/
theorem length_wireItems (items : List Value) : (wireItems items).length = itemLengths items := by
  cases items with
  | nil => rfl
  | cons v items =>
    rw [wireItems, itemLengths, List.length_append, length_wire v, length_wireItems items]

/-- Entries take the room that was measured for them. -/
theorem length_wireEntries (entries : List (String × Value)) :
    (wireEntries entries).length = entryLengths entries := by
  cases entries with
  | nil => rfl
  | cons entry entries =>
    obtain ⟨key, v⟩ := entry
    rw [wireEntries, entryLengths, List.length_append, List.length_append, length_wireText,
      length_wire v, length_wireEntries entries]
    omega

end

/-! ## What is measured -/

/-- Two steps one behind the other succeed when both do. -/
theorem exists_of_bind {α β : Type} {first : Except Fault α} {next : α → Except Fault β} {b : β}
    (h : first >>= next = .ok b) : ∃ a, first = .ok a ∧ next a = .ok b := by
  cases first with
  | error fault => cases h
  | ok a => exact ⟨a, rfl, h⟩

/-- What nests too deep is not measured. -/
theorem measure_tooDeep (v : Value) {depth : Nat} (h : nestingLimit < depth) :
    v.measure depth = .error (.nestingTooDeep nestingLimit) := by
  cases v <;> simp [measure, h]

mutual

/-- Only a value that does not nest too deep is measured, and by the length of its wire form. -/
theorem of_measure (v : Value) {depth n : Nat} (h : v.measure depth = .ok n) :
    n = v.wireLength ∧ depth + v.levels ≤ nestingLimit := by
  have hdepth : ¬nestingLimit < depth := by
    intro hdeep
    rw [measure_tooDeep v hdeep] at h
    cases h
  cases v with
  | seq kind node items =>
    rw [measure, if_neg hdepth] at h
    obtain ⟨length, hitems, hn⟩ := exists_of_bind h
    obtain rfl := Except.ok.inj hn
    obtain ⟨hlength, hlevels⟩ := of_measureItems items (by omega) hitems
    rw [wireLength, levels, hlength]
    exact ⟨rfl, by omega⟩
  | dict kind node entries =>
    rw [measure, if_neg hdepth] at h
    obtain ⟨length, hentries, hn⟩ := exists_of_bind h
    obtain rfl := Except.ok.inj hn
    obtain ⟨hlength, hlevels⟩ := of_measureEntries entries (by omega) hentries
    rw [wireLength, levels, hlength]
    exact ⟨rfl, by omega⟩
  | _ =>
    simp only [measure, hdepth, if_false, Except.ok.injEq] at h
    simp only [wireLength, levels, ← h, true_and]
    omega

/-- Items that were measured take that room and nest no deeper than allowed. -/
theorem of_measureItems (items : List Value) {depth n : Nat} (hdepth : depth ≤ nestingLimit + 1)
    (h : measureItems depth items = .ok n) :
    n = itemLengths items ∧ depth + itemLevels items ≤ nestingLimit + 1 := by
  cases items with
  | nil =>
    cases h
    exact ⟨rfl, hdepth⟩
  | cons v items =>
    rw [measureItems] at h
    obtain ⟨first, hv, hrest⟩ := exists_of_bind h
    obtain ⟨others, hitems, hn⟩ := exists_of_bind hrest
    obtain rfl := Except.ok.inj hn
    obtain ⟨hfirst, hlevels⟩ := of_measure v hv
    obtain ⟨hothers, hitemLevels⟩ := of_measureItems items hdepth hitems
    rw [itemLengths, itemLevels, hfirst, hothers]
    exact ⟨rfl, by omega⟩

/-- Entries that were measured take that room and nest no deeper than allowed. -/
theorem of_measureEntries (entries : List (String × Value)) {depth n : Nat}
    (hdepth : depth ≤ nestingLimit + 1) (h : measureEntries depth entries = .ok n) :
    n = entryLengths entries ∧ depth + entryLevels entries ≤ nestingLimit + 1 := by
  cases entries with
  | nil =>
    cases h
    exact ⟨rfl, hdepth⟩
  | cons entry entries =>
    obtain ⟨key, v⟩ := entry
    rw [measureEntries] at h
    obtain ⟨first, hv, hrest⟩ := exists_of_bind h
    obtain ⟨others, hentries, hn⟩ := exists_of_bind hrest
    obtain rfl := Except.ok.inj hn
    obtain ⟨hfirst, hlevels⟩ := of_measure v hv
    obtain ⟨hothers, hentryLevels⟩ := of_measureEntries entries hdepth hentries
    rw [entryLengths, entryLevels, hfirst, hothers]
    exact ⟨rfl, by omega⟩

end

/-- The written form of a value that is measured is read back, and nothing is left of it. -/
theorem decode_wire {v : Value} {n : Nat} (h : v.measure 0 = .ok n) (hordered : v.Ordered)
    (hfits : v.Fits) (node : NodeId) : ∃ w, decode node v.wire = .ok w ∧ w.content = v.content := by
  obtain ⟨-, hlevels⟩ := of_measure v h
  have hlevels : v.levels < nestingLimit + 1 := by omega
  obtain ⟨w, hvalue, hcontent⟩ := value_wire node v hlevels hordered hfits [] 0
  rw [List.append_nil] at hvalue
  refine ⟨w, ?_, hcontent⟩
  simp only [decode, decodeFront, hvalue, bind, Except.bind, pure, Except.pure, Nat.zero_add,
    lt_irrefl, if_false]

end SharedExchange.Value
