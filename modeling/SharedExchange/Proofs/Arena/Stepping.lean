import Mathlib.Tactic
import SharedExchange.Proofs.Arena.Laid

/-! # Going down in place

A node `Stands` for a value when the value is laid out there. One step down, to a position or to a
key, leads to a node that stands for the child, or to nothing in both (`Stands.item?_rel`,
`Stands.lookup?_rel`): references lead backwards and inside the used part, so none is refused, and
as keys ascend, halving the distance loses none (`search_rel`). Paths are steps
(`Stands.reach?_rel`), and a node that stands for a value `Shows` it. -/

namespace SharedExchange

namespace Value

/-- Each of the items fits if all do. -/
theorem fits_of_mem_items {items : List Value} (h : ItemsFit items) {v : Value} (hv : v ∈ items) :
    v.Fits := by
  induction items with
  | nil => cases hv
  | cons first items ih =>
    rw [ItemsFit] at h
    rcases List.mem_cons.1 hv with rfl | hv
    · exact h.1
    · exact ih h.2 hv

/-- Each of the items is ordered if all are. -/
theorem ordered_of_mem_items {items : List Value} (h : ItemsOrdered items) {v : Value}
    (hv : v ∈ items) : v.Ordered := by
  induction items with
  | nil => cases hv
  | cons first items ih =>
    rw [ItemsOrdered] at h
    rcases List.mem_cons.1 hv with rfl | hv
    · exact h.1
    · exact ih h.2 hv

/-- Each of the entries fits if all do. -/
theorem fits_of_mem_entries {entries : List (String × Value)} (h : EntriesFit entries)
    {entry : String × Value} (hentry : entry ∈ entries) :
    Utf8.size entry.1 < UInt32.size ∧ entry.2.Fits := by
  induction entries with
  | nil => cases hentry
  | cons first entries ih =>
    obtain ⟨key, v⟩ := first
    rw [EntriesFit] at h
    rcases List.mem_cons.1 hentry with rfl | hentry
    · exact ⟨h.1, h.2.1⟩
    · exact ih h.2.2 hentry

/-- Each of the entries is ordered if all are. -/
theorem ordered_of_mem_entries {entries : List (String × Value)} {last : Option String}
    (h : EntriesOrdered last entries) {entry : String × Value} (hentry : entry ∈ entries) :
    entry.2.Ordered := by
  induction entries generalizing last with
  | nil => cases hentry
  | cons first entries ih =>
    obtain ⟨key, v⟩ := first
    rw [EntriesOrdered] at h
    rcases List.mem_cons.1 hentry with rfl | hentry
    · exact h.2.1
    · exact ih h.2.2 hentry

end Value

namespace Arena

/-! ## Looking a key up among ascending keys -/

section

variable {β γ : Type} {entries : List (String × β)} {key : String}

/-- Entries whose keys ascend. -/
def Ascending (entries : List (String × β)) : Prop :=
  entries.Pairwise fun a b => Utf8.order a.1 b.1 = .lt

/-- A key that stands at no position is not found. -/
theorem lookup_eq_none (h : ∀ i (hi : i < entries.length), Utf8.order entries[i].1 key ≠ .eq) :
    entries.lookup key = none := by
  rw [List.lookup_eq_none_iff]
  intro entry hentry
  obtain ⟨i, hi, rfl⟩ := List.getElem_of_mem hentry
  rw [bne_iff_ne]
  intro heq
  exact h i hi (Utf8.order_eq_iff.2 heq.symm)

/-- Among ascending keys, a key is found where it stands. -/
theorem lookup_eq_some (h : Ascending entries) {i : Nat} (hi : i < entries.length)
    (hkey : entries[i].1 = key) : entries.lookup key = some entries[i].2 := by
  induction entries generalizing i with
  | nil => exact absurd hi (Nat.not_lt_zero i)
  | cons entry entries ih =>
    obtain ⟨key', v⟩ := entry
    obtain ⟨hfirst, hrest⟩ := List.pairwise_cons.1 h
    cases i with
    | zero =>
      have hsame : key' = key := hkey
      rw [List.lookup_cons, hsame, beq_self_eq_true]
      rfl
    | succ i =>
      have hi' : i < entries.length := Nat.lt_of_succ_lt_succ hi
      -- the first key is before all others
      have hne : (key == key') = false := by
        rw [beq_eq_false_iff_ne]
        rintro rfl
        have hlt := hfirst _ (List.getElem_mem hi')
        rw [Utf8.order_eq_iff.2 (show key = entries[i].1 from hkey.symm)] at hlt
        cases hlt
      rw [List.lookup_cons, hne]
      exact ih hrest hi' hkey

/-- Where the keys are the same, a key is found in both or in neither. -/
theorem lookup_rel {R : β → γ → Prop} {entries' : List (String × γ)}
    (h : List.Forall₂ (fun entry entry' => entry.1 = entry'.1 ∧ R entry.2 entry'.2)
      entries entries') (key : String) :
    Option.Rel R (entries.lookup key) (entries'.lookup key) := by
  induction h with
  | nil => exact .none
  | @cons entry entry' entries entries' hfirst hrest ih =>
    rw [List.lookup_cons, List.lookup_cons, hfirst.1]
    cases key == entry'.1 with
    | true => exact .some hfirst.2
    | false => exact ih

/-- Entries that agree in their keys have the same keys. -/
theorem keys_eq {entries' : List (String × γ)}
    (h : List.Forall₂ (fun entry entry' => entry.1 = entry'.1) entries entries') :
    entries.map Prod.fst = entries'.map Prod.fst :=
  List.forall₂_eq_eq_eq ▸ List.forall₂_map_left_iff.2 (List.forall₂_map_right_iff.2 h)

/-- Whether keys ascend does not depend on what stands under them. -/
theorem ascending_congr {entries' : List (String × γ)}
    (h : entries.map Prod.fst = entries'.map Prod.fst) :
    Ascending entries ↔ Ascending entries' := by
  rw [Ascending, Ascending, ← List.pairwise_map (f := Prod.fst)
    (R := fun a b => Utf8.order a b = .lt), h, List.pairwise_map]

/-- Keys in front of a smaller key are smaller. -/
theorem Ascending.lt_of_le (h : Ascending entries) {i j : Nat} (hij : i ≤ j)
    (hj : j < entries.length) (hkey : Utf8.order entries[j].1 key = .lt) :
    Utf8.order entries[i].1 key = .lt := by
  rcases Nat.lt_or_eq_of_le hij with hij | rfl
  · exact Utf8.order_trans (List.pairwise_iff_getElem.1 h i j (hij.trans hj) hj hij) hkey
  · exact hkey

/-- Keys behind a larger key are larger. -/
theorem Ascending.gt_of_le (h : Ascending entries) {i j : Nat} (hij : i ≤ j)
    (hj : j < entries.length) (hkey : Utf8.order entries[i].1 key = .gt) :
    Utf8.order entries[j].1 key = .gt := by
  have hbefore : Utf8.order key entries[i].1 = .lt := by
    rw [← Utf8.order_swap, hkey]
    rfl
  rcases Nat.lt_or_eq_of_le hij with hij | rfl
  · have hlt := Utf8.order_trans hbefore
      (List.pairwise_iff_getElem.1 h i j (hij.trans hj) hj hij)
    rw [← Utf8.order_swap, hlt]
    rfl
  · exact hkey

end

variable {a : Arena} {n : Node} {v : Value}

/-- Halving finds what is to be found between two positions, when the keys in front of the first are
smaller and those from the second on are larger. -/
theorem search_eq {found : List (String × Node)} {key : String} (hascending : Ascending found)
    (hentry : ∀ i (hi : i < found.length), n.entry? i = some found[i]) (steps low high : Nat)
    (hsteps : high - low < steps) (hhigh : high ≤ found.length)
    (hbefore : ∀ i (hi : i < found.length), i < low → Utf8.order found[i].1 key = .lt)
    (hbehind : ∀ i (hi : i < found.length), high ≤ i → Utf8.order found[i].1 key = .gt) :
    n.search key steps low high = found.lookup key := by
  induction steps generalizing low high with
  | zero => exact absurd hsteps (Nat.not_lt_zero _)
  | succ steps ih =>
    rw [Node.search]
    split
    · next hlt =>
      have hmiddle : low + (high - low) / 2 < found.length := by omega
      simp only [hentry _ hmiddle]
      split
      · next heq => exact (lookup_eq_some hascending hmiddle (Utf8.order_eq_iff.1 heq)).symm
      · next hless =>
        -- the key can only stand behind the middle
        refine ih _ _ (by omega) hhigh (fun i hi hfront => ?_) hbehind
        exact hascending.lt_of_le (Nat.lt_succ_iff.1 hfront) hmiddle hless
      · next hgreater =>
        -- the key can only stand in front of the middle
        refine ih _ _ (by omega) (by omega) hbefore (fun i hi hback => ?_)
        exact hascending.gt_of_le hback hi hgreater
    · next hempty =>
      refine (lookup_eq_none fun i hi heq => ?_).symm
      rcases Nat.lt_or_ge i low with hfront | hback
      · rw [hbefore i hi hfront] at heq
        cases heq
      · rw [hbehind i hi (by omega)] at heq
        cases heq

/-- Picking what is there at each position picks it in the order of the positions. -/
theorem forall₂_filterMap {α β : Type} {f : β → Option α} {l : List β}
    (h : ∀ b ∈ l, (f b).isSome) : List.Forall₂ (fun x b => f b = some x) (l.filterMap f) l := by
  induction l with
  | nil => exact .nil
  | cons b l ih =>
    obtain ⟨x, hx⟩ := Option.isSome_iff_exists.1 (h b List.mem_cons_self)
    rw [List.filterMap_cons_some hx]
    exact .cons hx (ih fun b hb => h b (List.mem_cons_of_mem _ hb))

/-- When there is something at all positions up to a number, it is picked position by position. -/
theorem filterMap_range {α : Type} {f : Nat → Option α} {count : Nat}
    (h : ∀ i < count, (f i).isSome) : ((List.range count).filterMap f).length = count ∧
      ∀ i (hi : i < ((List.range count).filterMap f).length),
        f i = some ((List.range count).filterMap f)[i] := by
  have hall := forall₂_filterMap (l := List.range count) fun i hi => h i (List.mem_range.1 hi)
  have hlength := hall.length_eq
  refine ⟨hlength.trans List.length_range, fun i hi => ?_⟩
  have hget := hall.get hi (hlength ▸ hi)
  rwa [List.get_eq_getElem, List.get_eq_getElem, List.getElem_range] at hget

/-! ## Entries that can be read -/

/-- Where every entry can be read, all of them are met in their order. -/
theorem entries_eq_of_entry? {γ : Type} {R : Node → γ → Prop} {entries : List (String × γ)}
    (hcount : n.entryCount = entries.length)
    (hentry : ∀ i (hi : i < entries.length),
      ∃ child, Node.entry? n i = some (entries[i].1, child) ∧ R child entries[i].2) :
    List.Forall₂ (fun found entry => found.1 = entry.1 ∧ R found.2 entry.2) n.entries entries ∧
      ∀ i (hi : i < n.entries.length), n.entry? i = some n.entries[i] := by
  have hsome : ∀ i < n.entryCount, (Node.entry? n i).isSome := by
    intro i hi
    obtain ⟨child, hchild, -⟩ := hentry i (hcount ▸ hi)
    exact Option.isSome_of_eq_some hchild
  obtain ⟨hlength, hget⟩ := filterMap_range hsome
  refine ⟨List.forall₂_iff_get.2 ⟨hlength.trans hcount, fun i hi hi' => ?_⟩, hget⟩
  obtain ⟨child, hchild, hrel⟩ := hentry i hi'
  have hfound : n.entries.get ⟨i, hi⟩ = (entries[i].1, child) :=
    Option.some.inj ((hget i hi).symm.trans hchild)
  rw [hfound]
  exact ⟨rfl, hrel⟩

/-- Where all entries can be read and their keys ascend, a key is looked up among them. -/
theorem lookup?_eq_lookup (hcount : n.entries.length = n.entryCount)
    (hentry : ∀ i (hi : i < n.entries.length), n.entry? i = some n.entries[i])
    (hascending : Ascending n.entries) (key : String) : n.lookup? key = n.entries.lookup key := by
  refine search_eq hascending hentry _ 0 _ (Nat.lt_succ_self _) hcount.ge
    (fun i _ hi => absurd hi (Nat.not_lt_zero i)) fun i hi hback => ?_
  exact absurd hi (Nat.not_lt.2 (hcount ▸ hback))

/-! ## One step -/

/-- A node of the arena that stands for a value as its makers promise it to be. -/
structure Stands (a : Arena) (n : Node) (v : Value) : Prop where
  node_eq : n = nodeOf a n.offset v
  laid : Laid a n.offset v
  fits : v.Fits
  ordered : v.Ordered

/-- A reference backwards to a value leads to the node that stands for it. -/
theorem stands_of_child {reference : Nat} (hbefore : reference < n.offset) (hn : n.arena = a)
    (h : Laid a reference v) (hfits : v.Fits) (hordered : v.Ordered) :
    n.child reference = .ok (nodeOf a reference v) ∧ Stands a (nodeOf a reference v) v := by
  rw [Node.child, if_neg (Nat.not_le.2 hbefore), hn]
  exact ⟨h.node_eq hfits, rfl, h, hfits, hordered⟩

/-- A position leads to the same child, or to none. -/
theorem Stands.item?_rel (h : Stands a n v) (hused : a.used < UInt64.size) (i : Nat) :
    Option.Rel (Stands a) (n.item? i) (v.item? i) := by
  obtain ⟨hn, hlaid, hfits, hordered⟩ := h
  have hoffset := hlaid.offset_lt.1.trans hused
  rw [hn]
  cases hlaid with
  | seq hwritten hbefore hitems =>
    next kind node items offsets =>
    have hcount : (nodeOf a n.offset (.seq kind node items)).itemCount = items.length := rfl
    have hchild : (Value.seq kind node items).item? i = items[i]? := rfl
    rw [Node.item?, hcount, hchild]
    -- the count of the node is that of the items, so both find a child or neither does
    by_cases hi : i < items.length
    · have hi' : i < offsets.length := hitems.length_eq ▸ hi
      have hword := hwritten.word?_eq (fun word hword => (hbefore word hword).trans hoffset) i hi'
      have hmem := List.getElem_mem hi
      obtain ⟨hfound, hstands⟩ := stands_of_child (a := a)
        (n := nodeOf a n.offset (.seq kind node items))
        (hbefore _ (List.getElem_mem hi')) rfl (hitems.get hi' hi)
        (Value.fits_of_mem_items hfits.2 hmem) (Value.ordered_of_mem_items hordered hmem)
      have hpayload : (nodeOf a n.offset (.seq kind node items)).arena.word?
          ((nodeOf a n.offset (.seq kind node items)).payload + 8 * i) = some offsets[i] := hword
      rw [if_pos hi, hpayload, Option.bind_some, hfound, List.getElem?_eq_getElem hi]
      exact .some hstands
    · rw [if_neg hi, List.getElem?_eq_none (Nat.not_lt.1 hi)]
      exact .none
  | _ =>
    have hnone : ∀ {w : Value}, (nodeOf a n.offset w).itemCount = 0 →
        (nodeOf a n.offset w).item? i = none := fun hcount => by
      rw [Node.item?, hcount, if_neg (Nat.not_lt_zero i)]
    rw [hnone rfl]
    exact .none

/-- The entries of a keyed container are found in their order, each with its key. -/
theorem entry?_eq {offset : Nat} {kind : DictKind} {node : NodeId}
    {entries : List (String × Value)} (h : Laid a offset (.dict kind node entries))
    (hused : a.used < UInt64.size) (hfits : (Value.dict kind node entries).Fits)
    (hordered : (Value.dict kind node entries).Ordered) (i : Nat) (hi : i < entries.length) :
    ∃ child, Node.entry? (nodeOf a offset (.dict kind node entries)) i =
      some (entries[i].1, child) ∧
      Stands a child entries[i].2 := by
  have hoffset := h.offset_lt.1.trans hused
  cases h with
  | dict hwritten hbefore hkeys hvalues =>
    next pairs =>
    have hi' : i < pairs.length := hkeys.length_eq ▸ hi
    have hmem := List.getElem_mem hi
    obtain ⟨hkeyfits, hvaluefits⟩ := Value.fits_of_mem_entries hfits.2 hmem
    obtain ⟨hkeybefore, hvaluebefore⟩ := hbefore _ (List.getElem_mem hi')
    have hreferences : (nodeOf a offset (.dict kind node entries)).entryReferences? i =
        some pairs[i] :=
      hwritten.entryReferences?_eq _ (fun pair hpair => ⟨(hbefore pair hpair).1.trans hoffset,
        (hbefore pair hpair).2.trans hoffset⟩) i hi'
    -- the key is a text of its own
    have hkey : Laid a pairs[i].1 (.text 0 entries[i].1) := .text 0 _ (hkeys.get hi' hi)
    obtain ⟨hkeyfound, -⟩ := stands_of_child (a := a)
      (n := nodeOf a offset (.dict kind node entries)) hkeybefore rfl hkey hkeyfits trivial
    obtain ⟨hfound, hstands⟩ := stands_of_child (a := a)
      (n := nodeOf a offset (.dict kind node entries)) hvaluebefore rfl (hvalues.get hi' hi)
      hvaluefits
      (Value.ordered_of_mem_entries hordered hmem)
    have htext : (nodeOf a pairs[i].1 (.text 0 entries[i].1)).toText? = some entries[i].1 :=
      hkey.toText?_eq
    refine ⟨_, ?_, hstands⟩
    simp only [Node.entry?, hreferences, hkeyfound, hfound, Except.toOption, htext,
      Option.bind_eq_bind, Option.bind_some, Option.pure_def, List.get_eq_getElem]

/-- All entries are met in their order, each with its key and a node that stands for its value. -/
theorem Stands.entries_rel (h : Stands a n v) (hused : a.used < UInt64.size) :
    List.Forall₂ (fun found entry => found.1 = entry.1 ∧ Stands a found.2 entry.2)
        n.entries (v.entries?.getD []) ∧
      ∀ i (hi : i < n.entries.length), n.entry? i = some n.entries[i] := by
  obtain ⟨hn, hlaid, hfits, hordered⟩ := h
  rw [hn]
  cases v with
  | dict kind node entries =>
    exact entries_eq_of_entry? rfl (entry?_eq hlaid hused hfits hordered)
  | _ => exact ⟨.nil, fun i hi => absurd hi (Nat.not_lt_zero i)⟩

/-- A key is looked up among the entries that are met. -/
theorem Stands.lookup?_eq (h : Stands a n v) (hused : a.used < UInt64.size) :
    Ascending n.entries ∧ ∀ key, n.lookup? key = n.entries.lookup key := by
  obtain ⟨hrel, hentry⟩ := h.entries_rel hused
  have hcount : n.entryCount = (v.entries?.getD []).length := by
    rw [h.node_eq]
    cases v <;> rfl
  have hvalue : Ascending (v.entries?.getD []) := by
    have hordered := h.ordered
    cases v with
    | dict kind node entries => exact (Value.pairwise_of_entriesOrdered hordered).2
    | _ => exact .nil
  have hascending := (ascending_congr (keys_eq (hrel.imp fun _ _ h => h.1))).2 hvalue
  exact ⟨hascending, lookup?_eq_lookup (hrel.length_eq.trans hcount.symm) hentry hascending⟩

/-- A key leads to the same child, or to none. -/
theorem Stands.lookup?_rel (h : Stands a n v) (hused : a.used < UInt64.size) (key : String) :
    Option.Rel (Stands a) (n.lookup? key) (v.lookup? key) := by
  have hchild : v.lookup? key = (v.entries?.getD []).lookup key := by
    cases v <;> rfl
  rw [(h.lookup?_eq hused).2, hchild]
  exact lookup_rel (h.entries_rel hused).1 key

/-! ## Paths -/

/-- A path leads to the same part, or to none. -/
theorem Stands.reach?_rel (h : Stands a n v) (hused : a.used < UInt64.size) (path : List Step) :
    Option.Rel (Stands a) (n.reach? path) (v.reach? path) := by
  induction path generalizing n v with
  | nil => exact .some h
  | cons step path ih =>
    have hstep : ∀ {found : Option Node} {child : Option Value},
        Option.Rel (Stands a) found child → Option.Rel (Stands a)
          (found.bind fun n => n.reach? path) (child.bind fun v => v.reach? path) := by
      intro found child hrel
      cases hrel with
      | none => exact .none
      | some hstands => exact ih hstands
    cases step with
    | key key => exact hstep (h.lookup?_rel hused key)
    | position i => exact hstep (h.item?_rel hused i)

end Arena

/-! ## What a node shows -/

/-- What can be seen of a value through a node in place. -/
structure Node.Shows (n : Node) (v : Value) : Prop where
  kind_eq : n.kind = v.kind
  length_eq : n.length = v.nodeLength
  childCount_eq : n.itemCount + n.entryCount = v.size
  toBool?_eq : n.toBool? = v.toBool?
  toInt?_eq : n.toInt? = v.toInt?
  toText?_eq : n.toText? = v.toText?
  components?_eq : n.components? = v.components?
  /-- Going over the items meets as many as the value has, each where its position leads. -/
  items : n.items.length = (v.items?.getD []).length ∧ ∀ i, n.items[i]? = n.item? i
  /-- Going over the entries meets the keys of the value in their order, each with the node to which
  it leads. -/
  entries : List.Forall₂ (fun found entry => found.1 = entry.1 ∧ n.lookup? entry.1 = some found.2)
    n.entries (v.entries?.getD [])
  /-- A copy of the node has the content of the value. -/
  toValue : ∀ node : NodeId, ∃ w, n.toValue node = .ok w ∧ w.content = v.content

namespace Arena

variable {a : Arena} {n : Node} {v : Value}

/-- All items are met in their order. -/
theorem Stands.items_eq (h : Stands a n v) (hused : a.used < UInt64.size) :
    n.items.length = (v.items?.getD []).length ∧ ∀ i, n.items[i]? = n.item? i := by
  have hcount : n.itemCount = (v.items?.getD []).length := by
    rw [h.node_eq]
    cases v <;> rfl
  have hsome : ∀ i < n.itemCount, (n.item? i).isSome := by
    intro i hi
    have hchild : v.item? i = (v.items?.getD [])[i]? := by
      cases v <;> rfl
    have hrel := h.item?_rel hused i
    rw [hchild, List.getElem?_eq_getElem (hcount ▸ hi)] at hrel
    cases hfound : n.item? i with
    | none =>
      rw [hfound] at hrel
      cases hrel
    | some child => rfl
  obtain ⟨hlength, hget⟩ := filterMap_range hsome
  refine ⟨hlength.trans hcount, fun i => ?_⟩
  by_cases hi : i < n.items.length
  · rw [List.getElem?_eq_getElem hi]
    exact (hget i hi).symm
  · rw [List.getElem?_eq_none (Nat.not_lt.1 hi), Node.item?, if_neg]
    rw [← hlength]
    exact hi

/-- A node that stands for a value shows it. -/
theorem Stands.shows (h : Stands a n v) (hused : a.used < UInt64.size) (hstart : a.start % 4 = 0) :
    n.Shows v := by
  have hitems := h.items_eq hused
  have hentries := (h.entries_rel hused).1
  obtain ⟨hascending, hlookup⟩ := h.lookup?_eq hused
  -- the keys ascend, so halving finds every entry under its key
  have hkept : List.Forall₂ (fun found entry => found.1 = entry.1 ∧
      n.lookup? entry.1 = some found.2) n.entries (v.entries?.getD []) := by
    refine List.forall₂_iff_get.2 ⟨hentries.length_eq, fun i hi hi' => ?_⟩
    have hkey := (hentries.get hi hi').1
    refine ⟨hkey, ?_⟩
    rw [hlookup]
    exact lookup_eq_some hascending hi hkey
  obtain ⟨hn, hlaid, hfits, hordered⟩ := h
  refine ⟨?_, ?_, ?_, ?_, ?_, ?_, ?_, hitems, hkept, fun node => ?_⟩
  · rw [hn]
    rfl
  · rw [hn]
    rfl
  · rw [hn]
    cases v with
    | seq => exact Nat.add_zero _
    | dict => exact Nat.zero_add _
    | _ => rfl
  · rw [hn]
    exact hlaid.toBool?_eq
  · rw [hn]
    exact hlaid.toInt?_eq
  · rw [hn]
    exact hlaid.toText?_eq
  · rw [hn]
    exact hlaid.components?_eq hstart
  · rw [Node.toValue, Arena.copyOut_eq_valueAt, hn]
    exact hlaid.valueAt_eq v hused hfits hordered node

/-- Whatever is reached in place shows what is reached in the value. -/
theorem Stands.reach?_shows (h : Stands a n v) (hused : a.used < UInt64.size)
    (hstart : a.start % 4 = 0) (path : List Step) :
    Option.Rel Node.Shows (n.reach? path) (v.reach? path) := by
  have hrel := h.reach?_rel hused path
  cases hfound : n.reach? path <;> cases hpart : v.reach? path <;> rw [hfound, hpart] at hrel <;>
    cases hrel
  · exact .none
  · next hstands => exact .some (hstands.shows hused hstart)

end Arena

end SharedExchange
