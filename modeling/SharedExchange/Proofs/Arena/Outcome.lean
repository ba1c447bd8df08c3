import Mathlib.Tactic
import SharedExchange.Proofs.Arena.Room

/-! # How writing ends

Writing stops when the room runs out, and the nodes written until then stay. However it ends, bytes
changed between the old cursor and the new one at most, a checked writer is still inside its arena,
and the fault, if there is one, is that a checked arena is exhausted (`Spent`).

What is written depends on the site for the room alone: a value that was written once is written
alike by a writer of the other mode, or in another object whose arena starts at the same position,
as long as the room is enough (`put_alike`). -/

namespace SharedExchange.Arena

variable {α β : Type} {site site' : Site} {w w' u : Writer} {offset k : Nat}

/-! ## Spending room -/

/-- What writing may have done at the end, be it in vain. -/
structure Spent (site : Site) (w : Writer) (done : Except Fault α × Writer) : Prop where
  cursor_le : w.cursor ≤ done.2.cursor
  /-- Nodes start at multiples of eight. -/
  mod_eq : done.2.cursor % 8 = w.cursor % 8
  get_eq : ∀ i, i < site.start + w.cursor ∨ site.start + done.2.cursor ≤ i →
    done.2.memory.get i = w.memory.get i
  /-- The object does not grow, however far the bytes reach. -/
  size_eq : done.2.memory.size = w.memory.size
  within : site.mode = .checked → w.cursor ≤ site.capacity → done.2.cursor ≤ site.capacity
  fault : ∀ fault, done.1 = .error fault →
    site.mode = .checked ∧ ∃ requested remaining, fault = .arenaExhausted requested remaining

/-- Nothing is spent when nothing is written. -/
theorem Spent.refl (site : Site) (w : Writer) (a : α) : Spent site w (.ok a, w) where
  cursor_le := le_refl _
  mod_eq := rfl
  get_eq _ _ := rfl
  size_eq := rfl
  within _ h := h
  fault fault h := by cases h

/-- Writing one after the other. -/
theorem Spent.trans {a : α} {done : Except Fault β × Writer} (h : Spent site w (.ok a, w'))
    (h' : Spent site w' done) : Spent site w done where
  cursor_le := h.cursor_le.trans h'.cursor_le
  mod_eq := h'.mod_eq.trans h.mod_eq
  get_eq i hi := by
    have hle : w.cursor ≤ w'.cursor := h.cursor_le
    have hle' := h'.cursor_le
    rw [h'.get_eq i (by omega)]
    refine h.get_eq i ?_
    show i < site.start + w.cursor ∨ site.start + w'.cursor ≤ i
    omega
  size_eq := h'.size_eq.trans h.size_eq
  within hmode hw := h'.within hmode (h.within hmode hw)
  fault := h'.fault

/-- A fault is passed on as it is. -/
theorem Spent.error {fault : Fault}
    (h : Spent site w ((.error fault, w') : Except Fault α × Writer)) :
    Spent site w ((.error fault, w') : Except Fault β × Writer) where
  cursor_le := h.cursor_le
  mod_eq := h.mod_eq
  get_eq := h.get_eq
  size_eq := h.size_eq
  within := h.within
  fault found hfound := h.fault found (congrArg _ (Except.error.inj hfound))

/-- The last answer is put together from the ones before. -/
theorem Spent.answer {a : α} (h : Spent site w (.ok a, w')) (b : β) : Spent site w (.ok b, w') :=
  h.trans (.refl site w' b)

/-- Adding a node spends room at the cursor, or fails for want of it. -/
theorem add_spent (site : Site) (kind : Kind) (length : Nat) (payload : List UInt8) (w : Writer) :
    Spent site w (w.add site kind length payload) := by
  have hpad := le_padded payload.length
  have hlength := length_nodeBytes kind length payload
  rw [Writer.add]
  split
  · next hfull =>
    refine ⟨le_refl _, rfl, fun _ _ => rfl, rfl, fun _ hw => hw, ?_⟩
    intro fault hfault
    exact ⟨hfull.1, _, _, (Except.error.inj hfault).symm⟩
  · next hroom =>
    refine ⟨Nat.le_add_right .., ?_, ?_, Memory.size_store .., ?_, ?_⟩
    · have hmod := padded_mod payload.length
      simp only [headerSize]
      omega
    · intro i hi
      simp only at hi ⊢
      exact Memory.get_store_of_disjoint w.memory (by omega)
    · intro hmode hw
      have hfits := Nat.not_lt.1 fun hlt => hroom ⟨hmode, hlt⟩
      simp only
      omega
    · intro fault hfault
      cases hfault

/-- Remembering a place writes nothing. -/
theorem Spent.remember {done : Except Fault Nat × Writer} (h : Spent site w done) (k : Nat) :
    Spent site w (Writer.remember k done) := by
  obtain ⟨answer, w'⟩ := done
  cases answer with
  | ok offset =>
    exact ⟨h.cursor_le, h.mod_eq, h.get_eq, h.size_eq, h.within,
      fun fault hfault => by cases hfault⟩
  | error fault => exact h

mutual

/-- However writing a value ends, it spent room behind the cursor alone. -/
theorem put_spent (site : Site) (v : Value) (w : Writer) : Spent site w (Writer.put site v w) := by
  cases v with
  | text node s =>
    rw [Writer.put]
    split
    · exact .refl ..
    · exact (add_spent ..).remember _
  | seq kind node items =>
    rw [Writer.put]
    have hitems := putItems_spent site items w
    split
    · exact .refl ..
    · split
      · next hput => exact (hput ▸ hitems).error
      · next hput => exact (hput ▸ hitems).trans ((add_spent ..).remember _)
  | dict kind node entries =>
    rw [Writer.put]
    have hentries := putEntries_spent site entries w
    split
    · exact .refl ..
    · split
      · next hput => exact (hput ▸ hentries).error
      · next hput => exact (hput ▸ hentries).trans ((add_spent ..).remember _)
  | _ =>
    simp only [Writer.put]
    exact add_spent ..

/-- However writing items ends, it spent room behind the cursor alone. -/
theorem putItems_spent (site : Site) (items : List Value) (w : Writer) :
    Spent site w (Writer.putItems site items w) := by
  cases items with
  | nil =>
    rw [Writer.putItems]
    exact .refl ..
  | cons v items =>
    rw [Writer.putItems]
    have hfirst := put_spent site v w
    split
    · next hput => exact (hput ▸ hfirst).error
    · next offset w₁ hput =>
      have hrest := putItems_spent site items w₁
      split
      · next hput' => exact (hput ▸ hfirst).trans (hput' ▸ hrest).error
      · next hput' => exact (hput ▸ hfirst).trans ((hput' ▸ hrest).answer _)

/-- However writing entries ends, it spent room behind the cursor alone. -/
theorem putEntries_spent (site : Site) (entries : List (String × Value)) (w : Writer) :
    Spent site w (Writer.putEntries site entries w) := by
  cases entries with
  | nil =>
    rw [Writer.putEntries]
    exact .refl ..
  | cons entry entries =>
    obtain ⟨key, v⟩ := entry
    rw [Writer.putEntries]
    have hkey : Spent site w (w.addText site key) := add_spent ..
    split
    · next hput => exact (hput ▸ hkey).error
    · next keyOffset w₁ hput =>
      have hfirst := put_spent site v w₁
      split
      · next hput' => exact (hput ▸ hkey).trans (hput' ▸ hfirst).error
      · next offset w₂ hput' =>
        have hrest := putEntries_spent site entries w₂
        have hfront := (hput ▸ hkey).trans (hput' ▸ hfirst)
        split
        · next hput'' => exact hfront.trans (hput'' ▸ hrest).error
        · next hput'' => exact hfront.trans ((hput'' ▸ hrest).answer _)

end

/-- A writer that does not check the room writes everything. -/
theorem put_of_fast (site : Site) (hmode : site.mode = .fast) (v : Value) (w : Writer) :
    ∃ offset w', Writer.put site v w = (.ok offset, w') := by
  have hspent := put_spent site v w
  cases hput : Writer.put site v w with
  | mk answer w' =>
    cases answer with
    | ok offset => exact ⟨offset, w', rfl⟩
    | error fault =>
      rw [hput] at hspent
      have hchecked := (hspent.fault fault rfl).1
      rw [hmode] at hchecked
      cases hchecked

/-! ## Writing at another site -/

/-- Two writers that differ in bytes outside the positions `P` alone. -/
structure Alike (P : Nat → Prop) (w u : Writer) : Prop where
  cursor_eq : u.cursor = w.cursor
  nodes_eq : u.nodes = w.nodes
  placed_eq : u.placed = w.placed
  get_eq : ∀ i, P i → u.memory.get i = w.memory.get i

/-- A site where everything has room that was written at the other, at the same position. -/
structure Admits (site' site : Site) (w' : Writer) : Prop where
  start_eq : site'.start = site.start
  room : site'.mode = .checked → w'.cursor ≤ site'.capacity

/-- What fits at the end fits before. -/
theorem Admits.of_spent {a : α} (h : Admits site' site w') (hspent : Spent site w (.ok a, w')) :
    Admits site' site w :=
  ⟨h.start_eq, fun hmode => le_trans (b := w'.cursor) hspent.cursor_le (h.room hmode)⟩

section

variable {P : Nat → Prop} {kind : Kind} {length : Nat} {payload : List UInt8}

/-- The same bytes written at the same position keep two memories alike. -/
theorem get_store_congr {m m' : Memory} {start i : Nat} {bytes : List UInt8}
    (h : m'.get i = m.get i) : (m'.store start bytes).get i = (m.store start bytes).get i := by
  rw [Memory.get_store, Memory.get_store, h]

/-- Two writers that were alike add a node alike, if both have room for it. -/
theorem add_alike (h : Alike P w u) (hadd : w.add site kind length payload = (.ok offset, w'))
    (hadmits : Admits site' site w') :
    ∃ u', u.add site' kind length payload = (.ok offset, u') ∧ Alike P w' u' := by
  have hcursor := (eq_of_add hadd).2.2.1
  rw [Writer.add] at hadd
  split at hadd
  · cases (Prod.mk.inj hadd).1
  · obtain ⟨hoffset, hw⟩ := Prod.mk.inj hadd
    have hroom : ¬(site'.mode = .checked ∧
        site'.capacity - u.cursor < headerSize + padded payload.length) := by
      rintro ⟨hmode, hlt⟩
      have hle := hadmits.room hmode
      rw [h.cursor_eq] at hlt
      omega
    rw [Writer.add, if_neg hroom, h.cursor_eq, hoffset, hadmits.start_eq]
    refine ⟨_, rfl, ?_, ?_, ?_, ?_⟩ <;> rw [← hw] <;> simp only
    · rw [h.nodes_eq]
    · exact h.placed_eq
    · intro i hi
      exact get_store_congr (h.get_eq i hi)

/-- Adding a node and remembering its place. -/
theorem remember_alike (h : Alike P w u)
    (hput : Writer.remember k (w.add site kind length payload) = (.ok offset, w'))
    (hadmits : Admits site' site w') :
    ∃ u', Writer.remember k (u.add site' kind length payload) = (.ok offset, u') ∧
      Alike P w' u' := by
  obtain ⟨added, hadd, rfl⟩ := eq_of_remember hput
  obtain ⟨u', hu', halike⟩ := add_alike h hadd ⟨hadmits.start_eq, hadmits.room⟩
  rw [hu']
  refine ⟨_, rfl, halike.cursor_eq, halike.nodes_eq, ?_, halike.get_eq⟩
  exact congrArg (·.insert k offset) halike.placed_eq

mutual

/-- A value is written alike wherever there is room. -/
theorem put_alike (v : Value) {w w' u : Writer} {offset : Nat} (h : Alike P w u)
    (hput : Writer.put site v w = (.ok offset, w')) (hadmits : Admits site' site w') :
    ∃ u', Writer.put site' v u = (.ok offset, u') ∧ Alike P w' u' := by
  cases v with
  | text node s =>
    rw [Writer.put, h.placed_eq]
    rcases put_text_eq_ok hput with ⟨hplaced, rfl⟩ | ⟨hnew, hput⟩
    · rw [hplaced]
      exact ⟨u, rfl, h⟩
    · rw [hnew]
      exact remember_alike h hput hadmits
  | seq kind node items =>
    rw [Writer.put, h.placed_eq]
    rcases put_seq_eq_ok hput with ⟨hplaced, rfl⟩ | ⟨hnew, offsets, w₁, hitems, hput⟩
    · rw [hplaced]
      exact ⟨u, rfl, h⟩
    · -- the items are written before the node, so there was room for them as well
      have hspent :=
        (add_spent site (.seq kind) items.length (Writer.references offsets) w₁).remember
          (shareKey node (.seq kind))
      obtain ⟨u₁, hu₁, halike⟩ := putItems_alike items h hitems (hadmits.of_spent (hput ▸ hspent))
      simp only [hnew, hu₁]
      exact remember_alike halike hput hadmits
  | dict kind node entries =>
    rw [Writer.put, h.placed_eq]
    rcases put_dict_eq_ok hput with ⟨hplaced, rfl⟩ | ⟨hnew, offsets, w₁, hentries, hput⟩
    · rw [hplaced]
      exact ⟨u, rfl, h⟩
    · have hspent := (add_spent site (.dict kind) entries.length (Writer.references offsets)
        w₁).remember (shareKey node (.dict kind))
      obtain ⟨u₁, hu₁, halike⟩ := putEntries_alike entries h hentries
        (hadmits.of_spent (hput ▸ hspent))
      simp only [hnew, hu₁]
      exact remember_alike halike hput hadmits
  | _ =>
    simp only [Writer.put] at hput ⊢
    exact add_alike h hput hadmits

/-- Items are written alike wherever there is room. -/
theorem putItems_alike (items : List Value) {w w' u : Writer} {offsets : List Nat}
    (h : Alike P w u) (hput : Writer.putItems site items w = (.ok offsets, w'))
    (hadmits : Admits site' site w') :
    ∃ u', Writer.putItems site' items u = (.ok offsets, u') ∧ Alike P w' u' := by
  cases items with
  | nil =>
    rw [Writer.putItems] at hput ⊢
    obtain ⟨hoffsets, hw⟩ := Prod.mk.inj hput
    exact ⟨u, by rw [hoffsets], hw ▸ h⟩
  | cons v items =>
    obtain ⟨offset, w₁, rest, hfirst, hrest, rfl⟩ := putItems_cons_eq_ok hput
    have hspent := putItems_spent site items w₁
    obtain ⟨u₁, hu₁, halike₁⟩ := put_alike v h hfirst (hadmits.of_spent (hrest ▸ hspent))
    obtain ⟨u₂, hu₂, halike₂⟩ := putItems_alike items halike₁ hrest hadmits
    refine ⟨u₂, ?_, halike₂⟩
    simp only [Writer.putItems, hu₁, hu₂]

/-- Entries are written alike wherever there is room. -/
theorem putEntries_alike (entries : List (String × Value)) {w w' u : Writer} {offsets : List Nat}
    (h : Alike P w u) (hput : Writer.putEntries site entries w = (.ok offsets, w'))
    (hadmits : Admits site' site w') :
    ∃ u', Writer.putEntries site' entries u = (.ok offsets, u') ∧ Alike P w' u' := by
  cases entries with
  | nil =>
    rw [Writer.putEntries] at hput ⊢
    obtain ⟨hoffsets, hw⟩ := Prod.mk.inj hput
    exact ⟨u, by rw [hoffsets], hw ▸ h⟩
  | cons entry entries =>
    obtain ⟨key, v⟩ := entry
    obtain ⟨keyOffset, w₁, offset, w₂, rest, hkey, hfirst, hrest, rfl⟩ := putEntries_cons_eq_ok hput
    have hspent₂ := putEntries_spent site entries w₂
    have hspent₁ := put_spent site v w₁
    have hadmits₂ := hadmits.of_spent (hrest ▸ hspent₂)
    obtain ⟨u₁, hu₁, halike₁⟩ := add_alike h hkey (hadmits₂.of_spent (hfirst ▸ hspent₁))
    have htext : u.addText site' key = (.ok keyOffset, u₁) := hu₁
    obtain ⟨u₂, hu₂, halike₂⟩ := put_alike v halike₁ hfirst hadmits₂
    obtain ⟨u₃, hu₃, halike₃⟩ := putEntries_alike entries halike₂ hrest hadmits
    refine ⟨u₃, ?_, halike₃⟩
    simp only [Writer.putEntries, htext, hu₂, hu₃]

end

end

end SharedExchange.Arena
