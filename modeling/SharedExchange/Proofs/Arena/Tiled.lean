import Mathlib.Tactic
import SharedExchange.Proofs.Arena.Laying
import SharedExchange.Proofs.Arena.Tiling

/-! # Writing fills the arena

Whatever a writer has written tiles the arena up to its cursor (`Tiled`). The invariant speaks of an
arena that is read once the writer is done, and of the references that the caller still holds:
writing a value leaves one more, and the node of a container takes those of its children
(`put_tiled`). -/

namespace SharedExchange.Arena

variable {a : Arena} {site : Site} {w w' added : Writer} {v root : Value} {o : Origin}
  {offset k : Nat} {tiles : List Tile} {t : Tile} {offsets pending : List Nat}

/-- What a writer of parts of `root` has written tiles the arena up to its cursor. -/
structure Tiled (a : Arena) (root : Value) (w : Writer) (tiles : List Tile)
    (pending : List Nat) : Prop extends Tiling a w.cursor tiles pending where
  length_eq : tiles.length = w.nodes
  /-- A node of the value has a place where its tile is. -/
  placed_iff : ∀ k offset : Nat, w.placed[k]? = some offset ↔
    ∃ t ∈ tiles, t.origin.shareKey? = some k ∧ t.node.offset = offset
  part : ∀ t ∈ tiles, ∀ v, t.origin = .part v → v ∈ root.parts ∧ v.Ordered ∧ v.Fits

/-- Nothing was written. -/
theorem tiled_fresh (a : Arena) (root : Value) (m : Memory) : Tiled a root ⟨m, 0, 0, ∅⟩ [] [] where
  toTiling := .nil a
  length_eq := rfl
  placed_iff k offset := by simp
  part t ht := by cases ht

/-- More was written, and the references to these origins are held now. -/
def Extends (a : Arena) (root : Value) (tiles : List Tile) (w' : Writer)
    (pending offsets : List Nat) (origins : List Origin) : Prop :=
  ∃ tiles', tiles ⊆ tiles' ∧ Tiled a root w' tiles' (pending ++ offsets) ∧
    Targets tiles' offsets origins

variable {offsets' : List Nat} {origins origins' : List Origin}

/-- Writing one after the other leaves the references of both. -/
theorem Extends.append (h : Extends a root tiles w pending offsets origins)
    (h' : ∀ tiles', Tiled a root w tiles' (pending ++ offsets) →
      Extends a root tiles' w' (pending ++ offsets) offsets' origins') :
    Extends a root tiles w' pending (offsets ++ offsets') (origins ++ origins') := by
  obtain ⟨tiles₁, hsub₁, h₁, htargets₁⟩ := h
  obtain ⟨tiles₂, hsub₂, h₂, htargets₂⟩ := h' tiles₁ h₁
  rw [List.append_assoc] at h₂
  exact ⟨tiles₂, List.Subset.trans hsub₁ hsub₂, h₂,
    List.rel_append (htargets₁.mono hsub₂) htargets₂⟩

/-- What is written last may take the references that were left. -/
theorem Extends.collect (h : Extends a root tiles w pending offsets origins)
    (h' : ∀ tiles', Tiled a root w tiles' (pending ++ offsets) → Targets tiles' offsets origins →
      Extends a root tiles' w' pending offsets' origins') :
    Extends a root tiles w' pending offsets' origins' := by
  obtain ⟨tiles₁, hsub₁, h₁, htargets₁⟩ := h
  obtain ⟨tiles₂, hsub₂, h₂, htargets₂⟩ := h' tiles₁ h₁ htargets₁
  exact ⟨tiles₂, List.Subset.trans hsub₁ hsub₂, h₂, htargets₂⟩

namespace Tiled

/-- Nothing more was written. -/
theorem extends_nil (h : Tiled a root w tiles pending) : Extends a root tiles w pending [] [] :=
  ⟨tiles, List.Subset.refl _, (List.append_nil pending).symm ▸ h, .nil⟩

/-- A node that has a place was written for the part with its number. -/
theorem origin_eq (h : Tiled a root w tiles pending) (hroot : root.Coherent) (hv : v ∈ root.parts)
    (hk : v.shareKey? = some k) (ht : t ∈ tiles) (htk : t.origin.shareKey? = some k) :
    t.origin = .part v := by
  cases horigin : t.origin with
  | part v' =>
    rw [horigin] at htk
    rw [hroot.eq_of_shareKey (h.part t ht v' horigin).1 hv htk hk]
  | key s =>
    rw [horigin] at htk
    cases htk

/-- A part that was met before is referred to where it was written then. -/
theorem meet (h : Tiled a root w tiles pending) (hroot : root.Coherent) (hv : v ∈ root.parts)
    (hk : v.shareKey? = some k) (hplaced : w.placed[k]? = some offset) :
    Extends a root tiles w pending [offset] [.part v] := by
  obtain ⟨t, ht, htk, rfl⟩ := (h.placed_iff k offset).1 hplaced
  exact ⟨tiles, List.Subset.refl _, ⟨h.toTiling.meet ht htk, h.length_eq, h.placed_iff, h.part⟩,
    .cons ⟨t, ht, h.origin_eq hroot hv hk ht htk, rfl⟩ .nil⟩

/-- Adding a node, and its place if it has a number. -/
theorem write (h : Tiled a root w tiles (pending ++ offsets)) (haligned : w.cursor % 8 = 0)
    (hfits : o.value.Fits) (hpart : ∀ v, o = .part v → v ∈ root.parts ∧ v.Ordered ∧ v.Fits)
    (htargets : Targets tiles offsets o.children)
    (hadd : w.add site o.value.kind o.value.nodeLength (payloadOf offsets o.value) =
      (.ok offset, added)) (hreads : Reads site added a)
    (hnew : ∀ k, o.shareKey? = some k → w.placed[k]? = none) {placed : Std.TreeMap Nat Nat}
    (hplaced : ∀ k place : Nat, placed[k]? = some place ↔
      w.placed[k]? = some place ∨ o.shareKey? = some k ∧ place = offset) :
    Extends a root tiles { added with placed := placed } pending [offset] [o] := by
  obtain ⟨rfl, -, hcursor, -⟩ := eq_of_add hadd
  have hwritten := written_of_add hadd haligned hreads
  -- what the node refers to lies inside the used part
  have hbound : ∀ reference ∈ offsets, reference < UInt64.size := by
    intro reference hmem
    obtain ⟨t, ht, rfl⟩ := htargets.exists_tile hmem
    exact (h.adjoin.node_eq ht).2.2.trans
      ((grows_of_add hadd).cursor_le.trans_lt (hreads.cursor_le.trans_lt hreads.used_lt))
  obtain ⟨hnode, hreferences, hstop⟩ :=
    hwritten.exists_tile hfits (htargets.length_eq.trans (length_children o)) hbound
  let t : Tile := ⟨nodeOf a w.cursor o.value, o⟩
  have ht : t ∈ tiles ++ [t] := List.mem_append_right _ List.mem_cons_self
  have htiling : Tiling a added.cursor (tiles ++ [t]) (pending ++ [w.cursor]) := by
    rw [hcursor, ← hstop]
    refine h.toTiling.snoc (t := t) haligned hnode rfl hreferences htargets fun k hk hmem => ?_
    obtain ⟨t', ht', htk⟩ := mem_shareKeys.1 hmem
    have hfound := (h.placed_iff k t'.node.offset).2 ⟨t', ht', htk, rfl⟩
    rw [hnew k hk] at hfound
    cases hfound
  refine ⟨tiles ++ [t], List.subset_append_left .., ⟨htiling, ?_, ?_, ?_⟩,
    .cons ⟨t, ht, rfl, rfl⟩ .nil⟩
  · rw [List.length_append, h.length_eq]
    exact (nodes_of_add hadd).symm
  · intro k place
    show placed[k]? = some place ↔ _
    rw [hplaced, h.placed_iff]
    simp only [List.mem_append, List.mem_singleton, or_and_right, exists_or, exists_eq_left]
    exact or_congr_right (and_congr_right fun _ => eq_comm)
  · intro t' ht' v hv
    rcases List.mem_append.1 ht' with ht' | ht'
    · exact h.part t' ht' v hv
    · rw [List.mem_singleton.1 ht'] at hv
      exact hpart v hv

/-- A node without a number is added. -/
theorem add (h : Tiled a root w tiles (pending ++ offsets)) (haligned : w.cursor % 8 = 0)
    (hfits : o.value.Fits) (hpart : ∀ v, o = .part v → v ∈ root.parts ∧ v.Ordered ∧ v.Fits)
    (htargets : Targets tiles offsets o.children) (hnone : o.shareKey? = none)
    (hadd : w.add site o.value.kind o.value.nodeLength (payloadOf offsets o.value) =
      (.ok offset, added)) (hreads : Reads site added a) :
    Extends a root tiles added pending [offset] [o] := by
  obtain ⟨-, -, -, hplaced⟩ := eq_of_add hadd
  have hsame : Extends a root tiles { added with placed := added.placed } pending [offset] [o] := by
    refine h.write haligned hfits hpart htargets hadd hreads (fun k hk => ?_) fun k place => ?_
    · rw [hnone] at hk
      cases hk
    · rw [hplaced, hnone]
      exact ⟨.inl, fun hplace => hplace.elim id fun hplace => by cases hplace.1⟩
  exact hsame

/-- A node with a number is added, and its place remembered. -/
theorem remember (h : Tiled a root w tiles (pending ++ offsets)) (haligned : w.cursor % 8 = 0)
    (hv : v ∈ root.parts) (hordered : v.Ordered) (hfits : v.Fits)
    (htargets : Targets tiles offsets (Origin.part v).children)
    (hk : v.shareKey? = some k) (hnew : w.placed[k]? = none)
    (hput : Writer.remember k (w.add site v.kind v.nodeLength (payloadOf offsets v)) =
      (.ok offset, w')) (hreads : Reads site w' a) :
    Extends a root tiles w' pending [offset] [.part v] := by
  obtain ⟨added, hadd, rfl⟩ := eq_of_remember hput
  obtain ⟨-, -, -, hplaced⟩ := eq_of_add hadd
  have hadded : Reads site added a :=
    ⟨hreads.start_eq, hreads.cursor_le, hreads.used_lt, hreads.get_eq⟩
  have hpart : ∀ v', Origin.part v = .part v' → v' ∈ root.parts ∧ v'.Ordered ∧ v'.Fits :=
    fun v' hv' => Origin.part.inj hv' ▸ ⟨hv, hordered, hfits⟩
  refine h.write (o := .part v) haligned hfits hpart htargets hadd hadded (fun k' hk' => ?_)
    fun k' place => ?_
  · rw [← Option.some.inj (hk.symm.trans hk')]
    exact hnew
  · rw [getElem?_insert_place, hplaced]
    by_cases heq : k = k'
    · rw [if_pos heq, ← heq, hnew]
      constructor
      · exact fun hplace => .inr ⟨hk, (Option.some.inj hplace).symm⟩
      · rintro (hplace | ⟨-, rfl⟩)
        · cases hplace
        · rfl
    · rw [if_neg heq]
      exact ⟨.inl, fun hplace => hplace.elim id fun hplace =>
        absurd (Option.some.inj (hk.symm.trans hplace.1)) heq⟩

end Tiled

/-- A value without a number is written each time. -/
theorem put_eq_add (hk : v.shareKey? = none) :
    Writer.put site v w = w.add site v.kind v.nodeLength (payloadOf [] v) := by
  cases v with
  | text node s | seq kind node items | dict kind node entries => cases hk
  | _ =>
    simp only [Writer.put]
    rfl

mutual

/-- Writing a part of a coherent value tiles the arena further, and leaves one reference to it. -/
theorem put_tiled (hroot : root.Coherent) (v : Value) {w w' : Writer} {offset : Nat}
    {tiles : List Tile} {pending : List Nat} (hv : v ∈ root.parts) (hordered : v.Ordered)
    (hfits : v.Fits) (hkept : Kept root site w) (h : Tiled a root w tiles pending)
    (hput : Writer.put site v w = (.ok offset, w')) (hreads : Reads site w' a) :
    Extends a root tiles w' pending [offset] [.part v] := by
  have hpart : ∀ v', Origin.part v = .part v' → v' ∈ root.parts ∧ v'.Ordered ∧ v'.Fits :=
    fun v' hv' => Origin.part.inj hv' ▸ ⟨hv, hordered, hfits⟩
  have hempty : Tiled a root w tiles (pending ++ []) := (List.append_nil pending).symm ▸ h
  -- what is not shared gets a tile of its own; what is shared may have one already
  cases hk : v.shareKey? with
  | none =>
    rw [put_eq_add hk] at hput
    refine hempty.add hkept.aligned hfits hpart ?_ hk hput hreads
    cases v with
    | seq kind node items => cases hk
    | dict kind node entries => cases hk
    | _ => exact .nil
  | some k =>
    cases v with
    | text node s =>
      obtain rfl := Option.some.inj hk
      rcases put_text_eq_ok hput with ⟨hplaced, rfl⟩ | ⟨hnew, hput⟩
      · exact h.meet hroot hv rfl hplaced
      · exact hempty.remember hkept.aligned hv hordered hfits .nil rfl hnew hput hreads
    | seq kind node items =>
      obtain rfl := Option.some.inj hk
      rcases put_seq_eq_ok hput with ⟨hplaced, rfl⟩ | ⟨hnew, offsets, w₁, hitems, hput⟩
      · exact h.meet hroot hv rfl hplaced
      · have hparts : ∀ p ∈ Value.itemParts items, p ∈ root.parts := fun p hp =>
          Value.parts_trans root hv (List.mem_cons_of_mem _ hp)
        obtain ⟨hbuilds, -⟩ := putItems_spec hroot items hparts hordered hfits.2 hkept hitems
        have hunplaced := hbuilds.unplaced (fun p hp => hroot.shareKey_ne_of_mem_items hv hp) hnew
        obtain ⟨added, hadd, rfl⟩ := eq_of_remember hput
        have hbefore := (grows_of_remember hadd hunplaced).reads hreads
        -- the references to the items are pending until the node that has them is written
        have hinner := putItems_tiled hroot items hparts hordered hfits.2 hkept h hitems hbefore
        exact hinner.collect fun tiles₁ h₁ htargets =>
          h₁.remember hbuilds.kept.aligned hv hordered hfits htargets rfl hunplaced hput hreads
    | dict kind node entries =>
      obtain rfl := Option.some.inj hk
      rcases put_dict_eq_ok hput with ⟨hplaced, rfl⟩ | ⟨hnew, offsets, w₁, hentries, hput⟩
      · exact h.meet hroot hv rfl hplaced
      · have hparts : ∀ p ∈ Value.entryParts entries, p ∈ root.parts := fun p hp =>
          Value.parts_trans root hv (List.mem_cons_of_mem _ hp)
        obtain ⟨-, -, hbuilds, -⟩ :=
          putEntries_spec hroot entries hparts hordered hfits.2 hkept hentries
        have hunplaced := hbuilds.unplaced (fun p hp => hroot.shareKey_ne_of_mem_entries hv hp) hnew
        obtain ⟨added, hadd, rfl⟩ := eq_of_remember hput
        have hbefore := (grows_of_remember hadd hunplaced).reads hreads
        have hinner :=
          putEntries_tiled hroot entries hparts hordered hfits.2 hkept h hentries hbefore
        exact hinner.collect fun tiles₁ h₁ htargets =>
          h₁.remember hbuilds.kept.aligned hv hordered hfits htargets rfl hunplaced hput hreads
    | _ => cases hk

/-- Writing items leaves a reference to each. -/
theorem putItems_tiled (hroot : root.Coherent) (items : List Value) {w w' : Writer}
    {offsets : List Nat} {tiles : List Tile} {pending : List Nat}
    (hparts : ∀ p ∈ Value.itemParts items, p ∈ root.parts)
    (hordered : Value.ItemsOrdered items) (hfits : Value.ItemsFit items)
    (hkept : Kept root site w) (h : Tiled a root w tiles pending)
    (hput : Writer.putItems site items w = (.ok offsets, w')) (hreads : Reads site w' a) :
    Extends a root tiles w' pending offsets (items.map .part) := by
  cases items with
  | nil =>
    rw [Writer.putItems] at hput
    obtain ⟨hoffsets, hw⟩ := Prod.mk.inj hput
    rw [← hw, ← Except.ok.inj hoffsets]
    exact h.extends_nil
  | cons v items =>
    rw [Value.ItemsOrdered] at hordered
    rw [Value.ItemsFit] at hfits
    obtain ⟨offset, w₁, rest, hfirst, hrest, rfl⟩ := putItems_cons_eq_ok hput
    have hv := hparts v (List.mem_append_left _ v.self_mem_parts)
    have hparts' : ∀ p ∈ Value.itemParts items, p ∈ root.parts := fun p hp =>
      hparts p (List.mem_append_right _ hp)
    have hkept₁ := (put_spec hroot v hv hordered.1 hfits.1 hkept hfirst).builds.kept
    obtain ⟨hbuilds, -⟩ := putItems_spec hroot items hparts' hordered.2 hfits.2 hkept₁ hrest
    have hreads₁ := hbuilds.grows.reads hreads
    exact (put_tiled hroot v hv hordered.1 hfits.1 hkept h hfirst hreads₁).append fun tiles₁ h₁ =>
      putItems_tiled hroot items hparts' hordered.2 hfits.2 hkept₁ h₁ hrest hreads

/-- Writing entries leaves a reference to each key and each value. -/
theorem putEntries_tiled (hroot : root.Coherent) (entries : List (String × Value))
    {last : Option String} {w w' : Writer} {offsets : List Nat} {tiles : List Tile}
    {pending : List Nat} (hparts : ∀ p ∈ Value.entryParts entries, p ∈ root.parts)
    (hordered : Value.EntriesOrdered last entries) (hfits : Value.EntriesFit entries)
    (hkept : Kept root site w) (h : Tiled a root w tiles pending)
    (hput : Writer.putEntries site entries w = (.ok offsets, w')) (hreads : Reads site w' a) :
    Extends a root tiles w' pending offsets
      (entries.flatMap fun entry => [.key entry.1, .part entry.2]) := by
  cases entries with
  | nil =>
    rw [Writer.putEntries] at hput
    obtain ⟨hoffsets, hw⟩ := Prod.mk.inj hput
    rw [← hw, ← Except.ok.inj hoffsets]
    exact h.extends_nil
  | cons entry entries =>
    obtain ⟨key, v⟩ := entry
    rw [Value.EntriesOrdered] at hordered
    rw [Value.EntriesFit] at hfits
    obtain ⟨keyOffset, w₁, offset, w₂, rest, hkey, hfirst, hrest, rfl⟩ := putEntries_cons_eq_ok hput
    have hv := hparts v (List.mem_append_left _ v.self_mem_parts)
    have hparts' : ∀ p ∈ Value.entryParts entries, p ∈ root.parts := fun p hp =>
      hparts p (List.mem_append_right _ hp)
    obtain ⟨-, -, hadded⟩ := hkept.key_of_addText hfits.1 hkey
    have hputs := put_spec hroot v hv hordered.2.1 hfits.2.1 hadded.kept hfirst
    obtain ⟨-, -, hbuilds, -⟩ :=
      putEntries_spec hroot entries hparts' hordered.2.2 hfits.2.2 hputs.builds.kept hrest
    have hreads₂ := hbuilds.grows.reads hreads
    have hreads₁ := hputs.builds.grows.reads hreads₂
    -- the key, its value, and the other entries
    have hfirstKey : Extends a root tiles w₁ pending [keyOffset] [.key key] :=
      Tiled.add (o := .key key) ((List.append_nil pending).symm ▸ h) hkept.aligned hfits.1
        (fun v hv => by cases hv) .nil rfl hkey hreads₁
    exact hfirstKey.append fun tiles₁ h₁ =>
      (put_tiled hroot v hv hordered.2.1 hfits.2.1 hadded.kept h₁ hfirst hreads₂).append
        fun tiles₂ h₂ => putEntries_tiled hroot entries hparts' hordered.2.2 hfits.2.2
          hputs.builds.kept h₂ hrest hreads

end

end SharedExchange.Arena
