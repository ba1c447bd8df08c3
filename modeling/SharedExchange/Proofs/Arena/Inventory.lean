import Mathlib.Tactic
import SharedExchange.Proofs.Arena.Confined
import SharedExchange.Proofs.Arena.InPlace
import SharedExchange.Proofs.Arena.Tiled

/-! # All nodes of a published value

An `Inventory` lists every node of an arena that holds a value: they tile the used part, the root is
the last of them, the keys of each keyed container ascend, and each node of the value, seen under
each of its kinds, was written exactly once. Publishing makes one in either mode, and whoever holds
the region reads it (`Session.inventory_of_publish`). -/

namespace SharedExchange

namespace Arena

/-- All nodes of an arena, in the order in which they lie, for the value at its root. -/
structure Inventory (a : Arena) (root : Node) (v : Value) (tiles : List Tile) : Prop extends
    Tiling a a.used tiles [root.offset] where
  last : tiles.getLast? = some ⟨root, .part v⟩
  /-- Every entry of a keyed container can be read, and their keys ascend. -/
  ascending : ∀ t ∈ tiles, t.node.entries.length = t.node.entryCount ∧ Ascending t.node.entries
  /-- For each node of the value, as it is seen under one kind, there is one node of the arena. -/
  one : ∀ p ∈ v.parts, p.node?.isSome →
    ∃ t, t.origin = .part p ∧ tiles.filter (fun t => t.origin.sameNode p) = [t]

variable {a : Arena} {site : Site} {w : Writer} {root v : Value} {tiles : List Tile}
  {pending : List Nat} {t : Tile}

/-- Where a keyed container was laid out, its keys ascend. -/
theorem Tiled.ascending (h : Tiled a root w tiles pending) (hlaid : AllLaid root site w)
    (hreads : Reads site w a) (ht : t ∈ tiles) :
    t.node.entries.length = t.node.entryCount ∧ Ascending t.node.entries := by
  have hheader := h.header t ht
  have hnone : t.node.entryCount = 0 →
      t.node.entries.length = t.node.entryCount ∧ Ascending t.node.entries := by
    intro hcount
    rw [Node.entries, hcount]
    exact ⟨rfl, .nil⟩
  cases horigin : t.origin with
  | key s =>
    rw [horigin] at hheader
    exact hnone (by rw [hheader]; rfl)
  | part p =>
    rw [horigin] at hheader
    cases p with
    | dict kind node entries =>
      obtain ⟨hp, hordered, hfits⟩ := h.part t ht _ horigin
      have hplaced := (h.placed_iff _ _).2 ⟨t, ht, by rw [horigin]; rfl, rfl⟩
      have hstands : Stands a t.node (.dict kind node entries) :=
        ⟨hheader, hlaid _ hp _ _ rfl hplaced a hreads, hfits, hordered⟩
      refine ⟨?_, (hstands.lookup?_eq hreads.used_lt).1⟩
      rw [(hstands.entries_rel hreads.used_lt).1.length_eq, hheader]
      rfl
    | _ => exact hnone (by rw [hheader]; rfl)

end Arena

namespace Region

open Arena (BuildMode Inventory)

variable {r : Region} {v : Value} {mode : BuildMode} {m m' : Memory}

/-- Publishing a value makes an inventory of it. -/
theorem exists_tiles_of_publish (hstart : r.arenaStart = freshArenaStart)
    (hcoherent : v.Coherent) (hordered : v.Ordered) (hfits : v.Fits)
    (h : r.publish v mode m = (.ok (), m')) :
    ∃ a root tiles, r.arena m' = .ok a ∧ r.root m' = .ok root ∧ a.used = (used m').toNat ∧
      tiles.length = (nodeCount m').toNat ∧ Inventory a root v tiles := by
  obtain ⟨-, offset, w, hbuild, hannounced⟩ := announced_of_publish h
  obtain ⟨hputs, hcursor⟩ := build_spec hcoherent hordered hfits hbuild
  obtain ⟨hused, hroot, hreads⟩ := hannounced.reads mode hstart hputs.lt_cursor hcursor
  obtain ⟨-, hput⟩ := put_of_build hcoherent hbuild
  have hview : r.view m' = ⟨m', freshArenaStart.toNat, (used m').toNat⟩ := by
    rw [view, hstart]
  rw [← hview] at hreads
  have hself := v.self_mem_parts
  have hkept := Arena.kept_fresh v (r.site mode) (enter .building m)
  have hlaid := (Arena.put_lays hcoherent v hself hordered hfits hkept
    (Arena.allLaid_fresh v (r.site mode) (enter .building m)) hput).2
  obtain ⟨tiles, -, htiled, htargets⟩ := Arena.put_tiled hcoherent v hself hordered hfits hkept
    (Arena.tiled_fresh (r.view m') v (enter .building m)) hput hreads
  -- the tile of the whole value is the one to which no other refers
  obtain ⟨⟨t, ht, horigin, hoffset⟩, -⟩ := List.forall₂_cons.1 htargets
  obtain ⟨last, hlast, hoffset'⟩ := htiled.exists_last
  obtain rfl := htiled.adjoin.eq_of_offset (List.mem_of_getLast? hlast) ht
    (hoffset'.trans hoffset.symm)
  have hnode := (htiled.adjoin.node_eq ht).1
  have hle : used m' ≤ r.capacity := by
    rw [UInt64.le_iff_toNat_le, hused]
    exact hcursor
  have harena : r.arena m' = .ok (r.view m') := arena_eq_ok_iff.2 ⟨hannounced.state_eq, hle, rfl⟩
  refine ⟨r.view m', last.node, tiles, harena, ?_, rfl, ?_, ⟨?_, ?_, ?_, ?_⟩⟩
  · rw [Region.root, harena, hroot, ← hoffset]
    exact hnode
  · -- every node takes room, so there are less than can be counted
    have hcount := htiled.adjoin.le
    have hcapacity := r.capacity.toNat_lt_size
    rw [Arena.headerSize, Nat.zero_add, htiled.length_eq] at hcount
    rw [nodeCount_of_publish h hbuild, UInt64.toNat_ofNat_of_lt' (by omega), htiled.length_eq]
  · have htiling := htiled.toTiling
    rw [← hused, List.nil_append, ← hoffset] at htiling
    exact htiling
  · rw [hlast, ← horigin]
  · exact fun t ht => htiled.ascending hlaid hreads ht
  · intro p hp hnode
    obtain ⟨k, hk⟩ : ∃ k, p.shareKey? = some k := by
      cases p with
      | text | seq | dict => exact ⟨_, rfl⟩
      | _ => cases hnode
    obtain ⟨place, hplaced⟩ := hputs.builds.complete p hp k hk
    obtain ⟨t, ht, htk, -⟩ := (htiled.placed_iff k place).1 hplaced
    exact ⟨t, htiled.origin_eq hcoherent hp hk ht htk, htiled.filter_eq hk ht htk⟩

namespace Session

variable {s : Session}

/-- Whoever publishes a value in a region, in either mode, fills its arena with nodes of which there
is an inventory, and everybody who holds the region reads them. -/
theorem inventory_of_publish {name : String} {size : UInt64} {d d' : Directory}
    (hcreate : create name size d = (.ok r, d')) (hrun : Relation.ReflTransGen Next (fresh r d') s)
    {q : Region} (hq : q ∈ s.handles) (hcoherent : v.Coherent) (hordered : v.Ordered)
    (hfits : v.Fits) (hpublish : q.publish v mode s.memory = (.ok (), m')) :
    ∃ a root tiles, (∀ q ∈ s.handles, q.arena m' = .ok a ∧ q.root m' = .ok root) ∧
      a.used = (used m').toNat ∧ tiles.length = (nodeCount m').toNat ∧
      Inventory a root v tiles := by
  have hkept := (kept_fresh hcreate).run hrun
  obtain ⟨hstart, hcapacity⟩ := hkept.agree q hq
  obtain ⟨a, root, tiles, harena, hroot, htiles⟩ :=
    exists_tiles_of_publish hstart hcoherent hordered hfits hpublish
  refine ⟨a, root, tiles, fun q' hq' => ?_, htiles⟩
  obtain ⟨hstart', hcapacity'⟩ := hkept.agree q' hq'
  have hsame : q'.arenaStart = q.arenaStart ∧ q'.capacity = q.capacity :=
    ⟨hstart'.trans hstart.symm, hcapacity'.trans hcapacity.symm⟩
  rw [root_congr hsame.1 hsame.2, hroot, arena, hsame.1, hsame.2]
  exact ⟨harena, rfl⟩

/-- A text under one key, and in a sequence under another. -/
def register : Value :=
  .dict .map 3 [("a", .text 1 "x"), ("b", .seq .vector 2 [.text 1 "x", .null])]

/-- The register takes six nodes: its two keys, the text once, the null, the sequence and itself. -/
theorem inventory_of_publish_register : ∃ r d' m' a root tiles,
    create "shelf" 120 Directory.empty = (.ok r, d') ∧
    r.publish register .checked (fresh r d').memory = (.ok (), m') ∧ r.arena m' = .ok a ∧
    r.root m' = .ok root ∧ a.used = 120 ∧ tiles.length = 6 ∧ Inventory a root register tiles := by
  let r : Region := ⟨⟨0, "shelf", 184, true⟩, 64, 120⟩
  have hcreate : (create "shelf" 120 Directory.empty).1 = .ok r :=
    congrArg Prod.fst (create_eq_ok_iff.2
      ⟨by decide, Directory.grants_empty (by decide) (by decide) (by decide), rfl, rfl⟩)
  let m := (fresh r (create "shelf" 120 Directory.empty).2).memory
  have hpublish : (r.publish register .checked m).1 = .ok () := by decide +kernel
  have hused : used (r.publish register .checked m).2 = 120 := by decide +kernel
  have hnodes : nodeCount (r.publish register .checked m).2 = 6 := by decide +kernel
  obtain ⟨d', m', hcreate, hpublish, hused, hnodes⟩ : ∃ d' m',
      create "shelf" 120 Directory.empty = (.ok r, d') ∧
      r.publish register .checked (fresh r d').memory = (.ok (), m') ∧ used m' = 120 ∧
      nodeCount m' = 6 :=
    ⟨_, _, Prod.fst_eq_iff.1 hcreate, Prod.fst_eq_iff.1 hpublish, hused, hnodes⟩
  have hcoherent : register.Coherent := by
    simp [Value.Coherent, register, Value.parts, Value.itemParts, Value.entryParts, Value.sameNode]
  have hordered : register.Ordered := by
    have hab : Utf8.order "a" "b" = .lt := by decide
    simp [register, Value.Ordered, Value.EntriesOrdered, Value.ItemsOrdered, hab]
  have hfits : register.Fits := by
    have ha : Utf8.size "a" < UInt32.size := by decide
    have hb : Utf8.size "b" < UInt32.size := by decide
    have hx : Utf8.size "x" < UInt32.size := by decide
    simp only [register, Value.Fits, Value.EntriesFit, Value.ItemsFit, List.length_cons,
      List.length_nil, ha, hb, hx]
    decide
  obtain ⟨a, root, tiles, hread, hlength, hcount, htiles⟩ :=
    inventory_of_publish hcreate .refl (List.mem_singleton_self r) hcoherent hordered hfits hpublish
  obtain ⟨harena, hroot⟩ := hread r (List.mem_singleton_self r)
  rw [hused] at hlength
  rw [hnodes] at hcount
  exact ⟨r, d', m', a, root, tiles, hcreate, hpublish, harena, hroot, hlength, hcount, htiles⟩

end Session

end Region

end SharedExchange
