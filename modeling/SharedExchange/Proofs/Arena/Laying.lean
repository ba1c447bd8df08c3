import Mathlib.Tactic
import SharedExchange.Proofs.Arena.Laid
import SharedExchange.Proofs.Arena.Building

/-! # What building lays out

Beside being denoted by its offset, a value that was written is laid out there: every arena that has
the bytes written so far has its node, and everything inside it at the references (`Lays`). The
invariant is that this holds of every node that has a place (`AllLaid`), and `put_lays` is the step
that keeps it. -/

namespace SharedExchange.Arena

variable {site : Site} {w w' added : Writer} {a : Arena} {v root : Value} {offset k : Nat}

/-- Every arena that is read later has the value at the offset. -/
def Lays (site : Site) (w : Writer) (offset : Nat) (v : Value) : Prop :=
  ∀ a, Reads site w a → Laid a offset v

/-- What was laid down stays so as the writer goes on. -/
theorem Lays.grow (h : Lays site w offset v) (hgrows : Grows site w w') : Lays site w' offset v :=
  fun a hreads => h a (hgrows.reads hreads)

/-- Where a part of `root` is placed, it is laid out. -/
def AllLaid (root : Value) (site : Site) (w : Writer) : Prop :=
  ∀ p ∈ root.parts, ∀ k offset : Nat, p.shareKey? = some k → w.placed[k]? = some offset →
    Lays site w offset p

/-- A writer that has written nothing has laid down whatever it has placed. -/
theorem allLaid_fresh (root : Value) (site : Site) (m : Memory) :
    AllLaid root site ⟨m, 0, 0, ∅⟩ := fun p _ k offset _ hk => by simp at hk

section

variable {kind : Kind} {length : Nat} {payload : List UInt8}

/-- A node that is not shared is added beside what is laid out. -/
theorem AllLaid.add (h : AllLaid root site w)
    (hadd : w.add site kind length payload = (.ok offset, w')) : AllLaid root site w' := by
  obtain ⟨-, -, -, hplaced⟩ := eq_of_add hadd
  intro p hp k offset hpk hk
  rw [hplaced] at hk
  exact (h p hp k offset hpk hk).grow (grows_of_add hadd)

/-- A scalar is laid out where its node was added. -/
theorem AllLaid.lays_of_add (h : AllLaid root site w) (haligned : w.cursor % 8 = 0)
    (hadd : w.add site kind length payload = (.ok offset, w'))
    (hlaid : ∀ a, Written a offset kind length payload → Laid a offset v) :
    Lays site w' offset v ∧ AllLaid root site w' :=
  ⟨fun a hreads => hlaid a (written_of_add hadd haligned hreads), h.add hadd⟩

/-- A shared node is laid out once everything inside it is. -/
theorem AllLaid.lays_of_remember (hroot : root.Coherent) (hv : v ∈ root.parts)
    (hk : v.shareKey? = some k) (h : AllLaid root site w) (haligned : w.cursor % 8 = 0)
    (hnew : w.placed[k]? = none)
    (hput : Writer.remember k (w.add site kind length payload) = (.ok offset, w'))
    (hlaid : ∀ a, Reads site w a → w.cursor = offset → Written a offset kind length payload →
      Laid a offset v) : Lays site w' offset v ∧ AllLaid root site w' := by
  obtain ⟨added, hadd, rfl⟩ := eq_of_remember hput
  obtain ⟨hoffset, -, -, hplaced⟩ := eq_of_add hadd
  have hgrows := grows_of_remember hadd hnew
  have hlays : Lays site { added with placed := added.placed.insert k offset } offset v := by
    intro a hreads
    have hadded : Reads site added a :=
      ⟨hreads.start_eq, hreads.cursor_le, hreads.used_lt, hreads.get_eq⟩
    exact hlaid a (hgrows.reads hreads) hoffset.symm (written_of_add hadd haligned hadded)
  refine ⟨hlays, fun p hp k' offset' hpk hk' => ?_⟩
  rw [getElem?_insert_place, hplaced] at hk'
  split at hk'
  · next heq =>
    -- another occurrence of the node: it is the same value
    rw [← heq] at hpk
    rw [hroot.eq_of_shareKey hp hv hpk hk, ← Option.some.inj hk']
    exact hlays
  · exact (h p hp k' offset' hpk hk').grow hgrows

end

mutual

/-- Writing a part of a coherent value lays it out. -/
theorem put_lays (hroot : root.Coherent) (v : Value) {w w' : Writer} {offset : Nat}
    (hv : v ∈ root.parts) (hordered : v.Ordered) (hfits : v.Fits) (hkept : Kept root site w)
    (h : AllLaid root site w) (hput : Writer.put site v w = (.ok offset, w')) :
    Lays site w' offset v ∧ AllLaid root site w' := by
  have haligned := hkept.aligned
  cases v with
  | null =>
    simp only [Writer.put] at hput
    exact h.lays_of_add haligned hput fun a => .null
  | bool b =>
    simp only [Writer.put] at hput
    exact h.lays_of_add haligned hput fun a => .bool b
  | integer kind bits =>
    simp only [Writer.put] at hput
    exact h.lays_of_add haligned hput fun a => .integer kind bits
  | float32 bits =>
    simp only [Writer.put] at hput
    exact h.lays_of_add haligned hput fun a => .float32 bits
  | float64 bits =>
    simp only [Writer.put] at hput
    exact h.lays_of_add haligned hput fun a => .float64 bits
  | floats shape components =>
    simp only [Writer.put] at hput
    exact h.lays_of_add haligned hput fun a => .floats shape components
  | text node s =>
    rcases put_text_eq_ok hput with ⟨hplaced, rfl⟩ | ⟨hnew, hput⟩
    · exact ⟨h _ hv _ _ rfl hplaced, h⟩
    · -- a text that is met for the first time; else it was laid out then
      exact h.lays_of_remember hroot hv rfl haligned hnew hput fun a _ _ => .text node s
  | seq kind node items =>
    rcases put_seq_eq_ok hput with ⟨hplaced, rfl⟩ | ⟨hnew, offsets, w₁, hitems, hput⟩
    · exact ⟨h _ hv _ _ rfl hplaced, h⟩
    · have hparts : ∀ p ∈ Value.itemParts items, p ∈ root.parts := fun p hp =>
        Value.parts_trans root hv (List.mem_cons_of_mem _ hp)
      obtain ⟨hbuilds, hdenoted⟩ := putItems_spec hroot items hparts hordered hfits.2 hkept hitems
      obtain ⟨hbefore, -⟩ := (List.forall₂_and_left _ _).1 hdenoted
      obtain ⟨hlays, hall⟩ := putItems_lays hroot items hparts hordered hfits.2 hkept h hitems
      have hunplaced := hbuilds.unplaced (fun p hp => hroot.shareKey_ne_of_mem_items hv hp) hnew
      refine hall.lays_of_remember hroot hv rfl hbuilds.kept.aligned hunplaced hput ?_
      intro a hreads hcursor hwritten
      rw [hcursor] at hbefore
      -- the items were written first, so they stand before the node and are read as they were
      exact .seq hwritten hbefore (hlays.imp fun reference v hlays => hlays a hreads)
  | dict kind node entries =>
    rcases put_dict_eq_ok hput with ⟨hplaced, rfl⟩ | ⟨hnew, offsets, w₁, hentries, hput⟩
    · exact ⟨h _ hv _ _ rfl hplaced, h⟩
    · have hparts : ∀ p ∈ Value.entryParts entries, p ∈ root.parts := fun p hp =>
        Value.parts_trans root hv (List.mem_cons_of_mem _ hp)
      obtain ⟨pairs, rfl, hbuilds, hlays, hall⟩ :=
        putEntries_lays hroot entries hparts hordered hfits.2 hkept h hentries
      obtain ⟨hbefore, hlays⟩ := (List.forall₂_and_left _ _).1 hlays
      have hunplaced := hbuilds.unplaced (fun p hp => hroot.shareKey_ne_of_mem_entries hv hp) hnew
      refine hall.lays_of_remember hroot hv rfl hbuilds.kept.aligned hunplaced hput ?_
      intro a hreads hcursor hwritten
      rw [hcursor] at hbefore
      exact .dict hwritten hbefore (hlays.imp fun pair entry hlays => hlays.1 a hreads)
        (hlays.imp fun pair entry hlays => hlays.2 a hreads)

/-- Writing items lays them out. -/
theorem putItems_lays (hroot : root.Coherent) (items : List Value) {w w' : Writer}
    {offsets : List Nat} (hparts : ∀ p ∈ Value.itemParts items, p ∈ root.parts)
    (hordered : Value.ItemsOrdered items) (hfits : Value.ItemsFit items)
    (hkept : Kept root site w) (h : AllLaid root site w)
    (hput : Writer.putItems site items w = (.ok offsets, w')) :
    List.Forall₂ (Lays site w') offsets items ∧ AllLaid root site w' := by
  cases items with
  | nil =>
    rw [Writer.putItems] at hput
    obtain ⟨hoffsets, hw⟩ := Prod.mk.inj hput
    rw [← hw, ← Except.ok.inj hoffsets]
    exact ⟨.nil, h⟩
  | cons v items =>
    rw [Value.ItemsOrdered] at hordered
    rw [Value.ItemsFit] at hfits
    obtain ⟨offset, w₁, rest, hfirst, hrest, rfl⟩ := putItems_cons_eq_ok hput
    have hv := hparts v (List.mem_append_left _ v.self_mem_parts)
    have hparts' : ∀ p ∈ Value.itemParts items, p ∈ root.parts := fun p hp =>
      hparts p (List.mem_append_right _ hp)
    have hkept₁ := (put_spec hroot v hv hordered.1 hfits.1 hkept hfirst).builds.kept
    obtain ⟨hbuilds, -⟩ := putItems_spec hroot items hparts' hordered.2 hfits.2 hkept₁ hrest
    obtain ⟨hlays, h₁⟩ := put_lays hroot v hv hordered.1 hfits.1 hkept h hfirst
    obtain ⟨hall, h₂⟩ := putItems_lays hroot items hparts' hordered.2 hfits.2 hkept₁ h₁ hrest
    exact ⟨.cons (hlays.grow hbuilds.grows) hall, h₂⟩

/-- Writing entries lays their keys and values out. -/
theorem putEntries_lays (hroot : root.Coherent) (entries : List (String × Value))
    {last : Option String} {w w' : Writer} {offsets : List Nat}
    (hparts : ∀ p ∈ Value.entryParts entries, p ∈ root.parts)
    (hordered : Value.EntriesOrdered last entries) (hfits : Value.EntriesFit entries)
    (hkept : Kept root site w) (h : AllLaid root site w)
    (hput : Writer.putEntries site entries w = (.ok offsets, w')) :
    ∃ pairs, offsets = pairReferences pairs ∧ Builds root site (Value.entryParts entries) w w' ∧
      List.Forall₂ (fun pair entry => (pair.1 < w'.cursor ∧ pair.2 < w'.cursor) ∧
        (∀ a, Reads site w' a →
          Written a pair.1 .text (Utf8.size entry.1) (Utf8.encode entry.1)) ∧
        Lays site w' pair.2 entry.2) pairs entries ∧ AllLaid root site w' := by
  cases entries with
  | nil =>
    rw [Writer.putEntries] at hput
    obtain ⟨hoffsets, hw⟩ := Prod.mk.inj hput
    rw [← hw, ← Except.ok.inj hoffsets]
    exact ⟨[], rfl, hkept.builds_nil, .nil, h⟩
  | cons entry entries =>
    obtain ⟨key, v⟩ := entry
    rw [Value.EntriesOrdered] at hordered
    rw [Value.EntriesFit] at hfits
    obtain ⟨keyOffset, w₁, offset, w₂, rest, hkey, hfirst, hrest, rfl⟩ := putEntries_cons_eq_ok hput
    have hv := hparts v (List.mem_append_left _ v.self_mem_parts)
    -- the key is written first, then the value, then the other entries
    obtain ⟨hbefore, -, hadded⟩ := hkept.key_of_addText hfits.1 hkey
    have hputs := put_spec hroot v hv hordered.2.1 hfits.2.1 hadded.kept hfirst
    obtain ⟨hlays, h₂⟩ := put_lays hroot v hv hordered.2.1 hfits.2.1 hadded.kept (h.add hkey) hfirst
    obtain ⟨pairs, rfl, hbuilds, hall, h₃⟩ := putEntries_lays hroot entries
      (fun p hp => hparts p (List.mem_append_right _ hp)) hordered.2.2 hfits.2.2 hputs.builds.kept
      h₂ hrest
    have hgrows := hputs.builds.grows.trans hbuilds.grows
    refine ⟨(keyOffset, offset) :: pairs, rfl, hadded.append (hputs.builds.append hbuilds),
      .cons ⟨⟨?_, ?_⟩, ?_, ?_⟩ hall, h₃⟩
    · exact hbefore.trans_le hgrows.cursor_le
    · exact hputs.lt_cursor.trans_le hbuilds.grows.cursor_le
    · exact fun a hreads => written_of_add hkey hkept.aligned (hgrows.reads hreads)
    · exact hlays.grow hbuilds.grows

end

end SharedExchange.Arena
