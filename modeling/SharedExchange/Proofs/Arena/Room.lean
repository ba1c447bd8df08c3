import Mathlib.Tactic
import SharedExchange.Proofs.Arena.Building

/-! # The room that writing takes

`measure` and `Writer.put` go through a value in the same order, but a container counts as met
before the nodes inside it are measured, and is placed after they are written. In between it is
*open*, so the nodes met are those placed and those open (`Agrees`). In a coherent value no open
container is met again, as it would lie inside itself, and so both skip the same nodes: what is
written takes the room that was measured (`put_room`). -/

namespace SharedExchange.Arena

variable {root : Value} {site : Site} {w w' : Writer} {met : Met} {opened : Nat → Prop}
  {offset k : Nat}

/-- The nodes met are the nodes placed and those that are open. -/
def Agrees (w : Writer) (met : Met) (opened : Nat → Prop) : Prop :=
  ∀ k : Nat, met.contains k = true ↔ (∃ offset : Nat, w.placed[k]? = some offset) ∨ opened k

/-- Before anything is written, nothing was met. -/
theorem agrees_fresh (m : Memory) : Agrees ⟨m, 0, 0, ∅⟩ ∅ fun _ => False := by
  intro k
  simp

/-- What was placed was met. -/
theorem Agrees.contains_of_placed (h : Agrees w met opened) (hplaced : w.placed[k]? = some offset) :
    met.contains k = true :=
  (h k).2 (.inl ⟨offset, hplaced⟩)

/-- What is neither placed nor open was not met. -/
theorem Agrees.not_contains (h : Agrees w met opened) (hplaced : w.placed[k]? = none)
    (hopen : ¬opened k) : ¬met.contains k = true := by
  rw [h k]
  rintro (⟨offset, hfound⟩ | hfound)
  · rw [hplaced] at hfound
    cases hfound
  · exact hopen hfound

/-- Meeting a container opens it. -/
theorem Agrees.insert (h : Agrees w met opened) (k : Nat) :
    Agrees w (met.insert k ()) fun k' => k = k' ∨ opened k' := by
  intro k'
  rw [Std.TreeMap.contains_insert, Bool.or_eq_true, beq_iff_eq, Std.LawfulEqCmp.compare_eq_iff_eq,
    h k']
  exact or_left_comm

section

variable {kind : Kind} {length : Nat} {payload : List UInt8}

/-- Adding a node places none. -/
theorem Agrees.add (h : Agrees w met opened)
    (hadd : w.add site kind length payload = (.ok offset, w')) : Agrees w' met opened := by
  obtain ⟨-, -, -, hplaced⟩ := eq_of_add hadd
  intro k
  rw [hplaced]
  exact h k

/-- Placing a container closes it. -/
theorem Agrees.remember (h : Agrees w met fun k' => k = k' ∨ opened k')
    (hput : Writer.remember k (w.add site kind length payload) = (.ok offset, w')) :
    w'.cursor = w.cursor + (headerSize + padded payload.length) ∧ Agrees w' met opened := by
  obtain ⟨added, hadd, rfl⟩ := eq_of_remember hput
  obtain ⟨-, -, hcursor, hplaced⟩ := eq_of_add hadd
  refine ⟨hcursor, ?_⟩
  intro k'
  rw [h k', getElem?_insert_place, hplaced]
  by_cases hk : k = k'
  · simp only [hk, if_true, true_or, or_true, Option.some.injEq, exists_eq']
  · simp only [hk, if_false, false_or]

/-- A container takes the room of its references behind that of what is inside it. -/
theorem Agrees.contain {references : List Nat} {start inner count : Nat}
    (h : Agrees w met fun k' => k = k' ∨ opened k') (hcursor : w.cursor = start + inner)
    (hcount : references.length = count)
    (hput : Writer.remember k (w.add site kind length (Writer.references references)) =
      (.ok offset, w')) :
    w'.cursor = start + (headerSize + 8 * count + inner) ∧ Agrees w' met opened := by
  obtain ⟨hlast, hagrees⟩ := h.remember hput
  refine ⟨?_, hagrees⟩
  rw [hlast, padded_references, hcursor, hcount]
  omega

end

/-- What lies inside a container is not open when the container is opened. -/
theorem closed_of_inner {v : Value} {inner : List Value} (hparts : v.parts = v :: inner)
    (hinner : ∀ p ∈ inner, p.shareKey? ≠ some k)
    (hclosed : ∀ p ∈ v.parts, ∀ k, p.shareKey? = some k → ¬opened k) :
    ∀ p ∈ inner, ∀ k', p.shareKey? = some k' → ¬(k = k' ∨ opened k') := by
  rintro p hp k' hk (rfl | hopen)
  · -- no container lies inside itself
    exact hinner p hp hk
  · refine hclosed p ?_ k' hk hopen
    rw [hparts]
    exact List.mem_cons_of_mem _ hp

mutual

/-- Writing a part of a coherent value takes the room that was measured for it. -/
theorem put_room (hroot : root.Coherent) (v : Value) {w w' : Writer} {offset : Nat} {met : Met}
    {opened : Nat → Prop} (hv : v ∈ root.parts) (h : Agrees w met opened)
    (hclosed : ∀ p ∈ v.parts, ∀ k, p.shareKey? = some k → ¬opened k)
    (hput : Writer.put site v w = (.ok offset, w')) :
    w'.cursor = w.cursor + (measure v met).1 ∧ Agrees w' (measure v met).2 opened := by
  cases v with
  | text node s =>
    rw [measure]
    rcases put_text_eq_ok hput with ⟨hplaced, rfl⟩ | ⟨hnew, hput⟩
    · rw [if_pos (h.contains_of_placed hplaced)]
      exact ⟨rfl, h⟩
    · have hkey := hclosed _ (Value.self_mem_parts _) _ rfl
      rw [if_neg (h.not_contains hnew hkey), ← Utf8.length_encode]
      exact (h.insert _).remember hput
  | seq kind node items =>
    rw [measure]
    rcases put_seq_eq_ok hput with ⟨hplaced, rfl⟩ | ⟨hnew, offsets, w₁, hitems, hput⟩
    · rw [if_pos (h.contains_of_placed hplaced)]
      exact ⟨rfl, h⟩
    · have hkey := hclosed _ (Value.self_mem_parts _) _ rfl
      rw [if_neg (h.not_contains hnew hkey)]
      -- while its items are written, the sequence is open
      obtain ⟨hlength, hinner, hagrees⟩ := putItems_room hroot items
        (fun p hp => Value.parts_trans root hv (List.mem_cons_of_mem _ hp))
        (h.insert (shareKey node (.seq kind)))
        (closed_of_inner rfl (fun p hp => hroot.shareKey_ne_of_mem_items hv hp) hclosed) hitems
      exact hagrees.contain hinner hlength hput
  | dict kind node entries =>
    rw [measure]
    rcases put_dict_eq_ok hput with ⟨hplaced, rfl⟩ | ⟨hnew, offsets, w₁, hentries, hput⟩
    · rw [if_pos (h.contains_of_placed hplaced)]
      exact ⟨rfl, h⟩
    · have hkey := hclosed _ (Value.self_mem_parts _) _ rfl
      rw [if_neg (h.not_contains hnew hkey)]
      -- while its entries are written, the container is open
      obtain ⟨hlength, hinner, hagrees⟩ := putEntries_room hroot entries
        (fun p hp => Value.parts_trans root hv (List.mem_cons_of_mem _ hp))
        (h.insert (shareKey node (.dict kind)))
        (closed_of_inner rfl (fun p hp => hroot.shareKey_ne_of_mem_entries hv hp) hclosed) hentries
      -- each entry has two references
      obtain ⟨hcursor, hagrees⟩ := hagrees.contain hinner hlength hput
      refine ⟨?_, hagrees⟩
      rw [hcursor, ← Nat.mul_assoc]
  | floats shape components =>
    simp only [Writer.put] at hput
    obtain ⟨-, -, hcursor, -⟩ := eq_of_add hput
    refine ⟨?_, h.add hput⟩
    rw [hcursor]
    simp [measure, payloadSize, List.length_flatMap, Nat.mul_comm]
  | _ =>
    simp only [Writer.put] at hput
    obtain ⟨-, -, hcursor, -⟩ := eq_of_add hput
    refine ⟨?_, h.add hput⟩
    rw [hcursor]
    simp [measure, payloadSize, padded]

/-- Writing items takes the room that was measured for them. -/
theorem putItems_room (hroot : root.Coherent) (items : List Value) {w w' : Writer}
    {offsets : List Nat} {met : Met} {opened : Nat → Prop}
    (hparts : ∀ p ∈ Value.itemParts items, p ∈ root.parts) (h : Agrees w met opened)
    (hclosed : ∀ p ∈ Value.itemParts items, ∀ k, p.shareKey? = some k → ¬opened k)
    (hput : Writer.putItems site items w = (.ok offsets, w')) :
    offsets.length = items.length ∧ w'.cursor = w.cursor + (measureItems items met).1 ∧
      Agrees w' (measureItems items met).2 opened := by
  cases items with
  | nil =>
    rw [Writer.putItems] at hput
    obtain ⟨hoffsets, hw⟩ := Prod.mk.inj hput
    rw [← hw, ← Except.ok.inj hoffsets]
    exact ⟨rfl, rfl, h⟩
  | cons v items =>
    obtain ⟨offset, w₁, rest, hfirst, hrest, rfl⟩ := putItems_cons_eq_ok hput
    obtain ⟨hcursor₁, hagrees₁⟩ := put_room hroot v
      (hparts v (List.mem_append_left _ v.self_mem_parts)) h
      (fun p hp => hclosed p (List.mem_append_left _ hp)) hfirst
    obtain ⟨hlength, hcursor₂, hagrees₂⟩ := putItems_room hroot items
      (fun p hp => hparts p (List.mem_append_right _ hp)) hagrees₁
      (fun p hp => hclosed p (List.mem_append_right _ hp)) hrest
    refine ⟨by rw [List.length_cons, List.length_cons, hlength], ?_, hagrees₂⟩
    rw [hcursor₂, hcursor₁, Nat.add_assoc]
    rfl

/-- Writing entries takes the room that was measured for them, that of their keys included. -/
theorem putEntries_room (hroot : root.Coherent) (entries : List (String × Value)) {w w' : Writer}
    {offsets : List Nat} {met : Met} {opened : Nat → Prop}
    (hparts : ∀ p ∈ Value.entryParts entries, p ∈ root.parts) (h : Agrees w met opened)
    (hclosed : ∀ p ∈ Value.entryParts entries, ∀ k, p.shareKey? = some k → ¬opened k)
    (hput : Writer.putEntries site entries w = (.ok offsets, w')) :
    offsets.length = 2 * entries.length ∧ w'.cursor = w.cursor + (measureEntries entries met).1 ∧
      Agrees w' (measureEntries entries met).2 opened := by
  cases entries with
  | nil =>
    rw [Writer.putEntries] at hput
    obtain ⟨hoffsets, hw⟩ := Prod.mk.inj hput
    rw [← hw, ← Except.ok.inj hoffsets]
    exact ⟨rfl, rfl, h⟩
  | cons entry entries =>
    obtain ⟨key, v⟩ := entry
    obtain ⟨keyOffset, w₁, offset, w₂, rest, hkey, hfirst, hrest, rfl⟩ := putEntries_cons_eq_ok hput
    obtain ⟨-, -, hcursor, -⟩ := eq_of_add hkey
    obtain ⟨hcursor₁, hagrees₁⟩ := put_room hroot v
      (hparts v (List.mem_append_left _ v.self_mem_parts)) (h.add hkey)
      (fun p hp => hclosed p (List.mem_append_left _ hp)) hfirst
    obtain ⟨hlength, hcursor₂, hagrees₂⟩ := putEntries_room hroot entries
      (fun p hp => hparts p (List.mem_append_right _ hp)) hagrees₁
      (fun p hp => hclosed p (List.mem_append_right _ hp)) hrest
    refine ⟨?_, ?_, hagrees₂⟩
    · rw [List.length_cons, List.length_cons, List.length_cons, hlength]
      rfl
    · rw [hcursor₂, hcursor₁, hcursor, Utf8.length_encode, Nat.add_assoc, Nat.add_assoc]
      simp only [measureEntries, keySize, Nat.add_assoc]

end

end SharedExchange.Arena
