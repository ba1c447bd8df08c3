import SharedExchange.Proofs.Directory.Requests

/-! # Names and their makers

Objects go by number, and a number is never given twice. A name is a place in a table: it can be
taken away and be given to another object. A maker's hold refers to its object, but when it ends the
name goes, wherever the name leads by then (`Holding.getElem?_names_release`).

`Tenants` are a directory and the holds on its objects while things are made and found, names are
taken away and holds end. Along every run a name leads to the object that was made under it for as
long as the name has been in use without a break (`Tenants.leads_iff`); once it was out of use, it
never leads there again. So a hold that ends takes away the name of an object that somebody else
made exactly when the name had been out of use in between (`Tenants.spares_iff`). -/

namespace SharedExchange

namespace Directory

variable {d d' : Directory} {name : String}

/-! ## Ending holds -/

/-- Whether a name leads to an object. -/
def reaches (d : Directory) (name : String) : Bool :=
  match d.names[name]? with
  | some (.object _) => true
  | some .folder | none => false

/-- To reach an object is to lead to one. -/
theorem reaches_eq_true_iff : d.reaches name = true ↔ ∃ id, d.names[name]? = some (.object id) := by
  rw [reaches]
  split
  · next id hleads => exact ⟨fun _ => ⟨id, hleads⟩, fun _ => rfl⟩
  · next hfolder => simp [hfolder]
  · next hunused => simp [hunused]

/-- A name that leads to an object reaches one. -/
theorem reaches_of_leads {id : ObjectId} (h : d.names[name]? = some (.object id)) :
    d.reaches name = true :=
  reaches_eq_true_iff.2 ⟨id, h⟩

/-- A well-formed name goes when it is taken away, if it leads to an object. -/
theorem getElem?_names_unlink {gone : String} (hok : checkName gone = .ok ()) (name : String) :
    (d.unlink gone).2.names[name]? =
      if gone = name ∧ d.reaches name = true then none else d.names[name]? := by
  rw [unlink]
  simp only [hok]
  by_cases hname : gone = name
  · subst hname
    rw [reaches]
    split
    · next hunused => simp [hunused]
    · next hfolder => simp [hfolder]
    · next id hleads => simp [hleads, getElem?_names_forget]
  · rw [if_neg fun h => hname h.1]
    split
    · rfl
    · rfl
    · rw [getElem?_names_forget, if_neg hname]

/-- Names may have been taken away, and that is all. -/
structure Sheds (d d' : Directory) : Prop where
  names_eq : ∀ name : String, d'.names[name]? = d.names[name]? ∨ d'.names[name]? = none
  nextObject_eq : d'.nextObject = d.nextObject

/-- Nothing done, nothing taken away. -/
theorem Sheds.refl (d : Directory) : d.Sheds d := ⟨fun _ => .inl rfl, rfl⟩

/-- The contents of an object have no name. -/
theorem sheds_update (d : Directory) (id : ObjectId) (m : Memory) : d.Sheds (d.update id m) :=
  ⟨fun _ => .inl rfl, rfl⟩

/-- To take a name away takes no more than that away. -/
theorem sheds_unlink (d : Directory) (gone : String) : d.Sheds (d.unlink gone).2 := by
  rw [unlink]
  split
  · exact .refl d
  split
  · exact .refl d
  · exact .refl d
  · refine ⟨fun name => ?_, rfl⟩
    rw [getElem?_names_forget]
    by_cases hname : gone = name
    · exact .inr (if_pos hname)
    · exact .inl (if_neg hname)

/-- A hold that ends takes no more than its name away. -/
theorem sheds_release (d : Directory) (a : Attachment) : d.Sheds (d.release a) := by
  rw [release]
  split
  · exact sheds_unlink d a.name
  · exact .refl d

/-- To take away twice is to take away. -/
theorem Sheds.trans {e : Directory} (h : d.Sheds e) (h' : e.Sheds d') : d.Sheds d' := by
  refine ⟨fun name => ?_, h'.nextObject_eq.trans h.nextObject_eq⟩
  rcases h'.names_eq name with hsame | hgone
  · rw [hsame]
    exact h.names_eq name
  · exact .inr hgone

/-- The name of a maker's hold goes when the hold ends, if it leads to an object. -/
theorem getElem?_names_release {a : Attachment}
    (hok : a.owner = true → checkName a.name = .ok ()) (d : Directory) (name : String) :
    (d.release a).names[name]? =
      if (a.owner = true ∧ a.name = name) ∧ d.reaches name = true then none
      else d.names[name]? := by
  rw [release]
  by_cases howner : a.owner = true
  · simp only [howner, if_true, getElem?_names_unlink (hok howner), true_and]
  · simp only [howner, Bool.false_eq_true, if_false, false_and]

/-- Whether a name reaches an object is a matter of where it leads. -/
theorem reaches_congr {e : Directory} (h : e.names[name]? = d.names[name]?) :
    e.reaches name = d.reaches name := by
  rw [reaches, h, reaches]

/-- Of several holds that end one after the other, the makers' take their names away. -/
theorem getElem?_names_foldl_release {as : List Attachment}
    (hok : ∀ a ∈ as, a.owner = true → checkName a.name = .ok ()) (d : Directory) (name : String) :
    (as.foldl release d).names[name]? =
      if (∃ a ∈ as, a.owner = true ∧ a.name = name) ∧ d.reaches name = true then none
      else d.names[name]? := by
  induction as generalizing d with
  | nil => simp
  | cons a as ih =>
    have hfirst := getElem?_names_release (hok a List.mem_cons_self) d name
    rw [List.foldl_cons, ih fun b hb => hok b (List.mem_cons_of_mem a hb)]
    simp only [List.exists_mem_cons_iff]
    by_cases hgone : (a.owner = true ∧ a.name = name) ∧ d.reaches name = true
    · -- once gone, the name stays so
      rw [if_pos hgone] at hfirst
      have hunreached : ¬(d.release a).reaches name = true := fun hreaches => by
        obtain ⟨id, hleads⟩ := reaches_eq_true_iff.1 hreaches
        rw [hfirst] at hleads
        cases hleads
      rw [if_neg fun h => hunreached h.2, hfirst, if_pos ⟨.inl hgone.1, hgone.2⟩]
    · rw [if_neg hgone] at hfirst
      rw [hfirst, reaches_congr hfirst]
      refine if_congr ?_ rfl rfl
      constructor
      · rintro ⟨hlater, hreaches⟩
        exact ⟨.inr hlater, hreaches⟩
      · rintro ⟨hclaim | hlater, hreaches⟩
        · exact absurd ⟨hclaim, hreaches⟩ hgone
        · exact ⟨hlater, hreaches⟩

/-- Several holds that end take nothing away but names. -/
theorem sheds_foldl_release (as : List Attachment) (d : Directory) :
    d.Sheds (as.foldl release d) := by
  induction as generalizing d with
  | nil => exact .refl d
  | cons a as ih => exact (d.sheds_release a).trans (ih (d.release a))

end Directory

namespace Holding

/-- A hold ends part by part. A region is marked before, which leaves the names alone. -/
theorem release_eq_foldl (h : Holding) (d : Directory) :
    ∃ e : Directory, e.names = d.names ∧ e.nextObject = d.nextObject ∧
      h.release d = h.attachments.foldl Directory.release e := by
  cases h with
  | region r =>
    refine ⟨if r.attachment.owner then d.update r.attachment.object
      (Region.enter .tornDown (d.memory r.attachment.object)) else d, ?_, ?_, rfl⟩
    · split <;> rfl
    · split <;> rfl
  | roster r =>
    refine ⟨d, rfl, rfl, ?_⟩
    rw [release, Roster.release, attachments, List.foldl_append, List.foldl_map, List.foldl_map,
      Std.TreeMap.foldl_eq_foldl_toList, Std.TreeMap.foldl_eq_foldl_toList]
  | foreignRing r => exact ⟨d, rfl, rfl, by cases r <;> rfl⟩
  | foreignPool p => exact ⟨d, rfl, rfl, by cases p <;> rfl⟩
  | _ => exact ⟨d, rfl, rfl, rfl⟩

/-- The names of a maker's holds go when these end, as far as they lead to objects. -/
theorem getElem?_names_release {h : Holding} (hok : ∀ a ∈ h.attachments, a.owner = true →
      Directory.checkName a.name = .ok ()) (d : Directory) (name : String) :
    (h.release d).names[name]? =
      if (∃ a ∈ h.attachments, a.owner = true ∧ a.name = name) ∧ d.reaches name = true then none
      else d.names[name]? := by
  obtain ⟨e, hnames, -, hrelease⟩ := h.release_eq_foldl d
  rw [hrelease, Directory.getElem?_names_foldl_release hok, hnames, Directory.reaches, hnames,
    ← Directory.reaches]

/-- Holds that end take nothing away but names. -/
theorem sheds_release (h : Holding) (d : Directory) : d.Sheds (h.release d) := by
  obtain ⟨e, hnames, hnext, hrelease⟩ := h.release_eq_foldl d
  have hsheds := Directory.sheds_foldl_release h.attachments e
  rw [← hrelease] at hsheds
  exact ⟨fun name => hnames ▸ hsheds.names_eq name, hsheds.nextObject_eq.trans hnext⟩

end Holding

/-- What is found gives no maker's hold. -/
theorem Sought.owner_of_find {sought : Sought} {name : String} {d : Directory} {h : Holding}
    (hfind : (sought.find name d).1 = .ok h) : ∀ a ∈ h.attachments, a.owner = false := by
  have hone : ∀ {a : Attachment}, a.owner = false → ∀ b ∈ [a], b.owner = false :=
    fun ha b hb => List.mem_singleton.1 hb ▸ ha
  cases sought with
  | object =>
    obtain ⟨a, ha, rfl⟩ := map_eq_ok_iff.1 hfind
    exact hone (Directory.owner_of_attach (mapError_eq_ok_iff.1 ha))
  | ring patience =>
    obtain ⟨r, hr, rfl⟩ := map_eq_ok_iff.1 hfind
    obtain ⟨⟨a, hfound, rfl⟩, -⟩ := Ring.attach_eq_ok_iff.1 (Prod.ext hr rfl)
    exact hone hfound.owner_eq
  | link =>
    obtain ⟨l, hl, rfl⟩ := map_eq_ok_iff.1 hfind
    -- both rings of a link were found
    obtain ⟨hincoming, houtgoing, -⟩ := Duplex.connect_eq_ok_iff.1 (Prod.ext hl rfl)
    obtain ⟨⟨a, hfound, ha⟩, -⟩ := Ring.attach_eq_ok_iff.1 hincoming
    obtain ⟨⟨b, hfound', hb⟩, -⟩ := Ring.attach_eq_ok_iff.1 houtgoing
    intro c hc
    rcases List.mem_pair.1 hc with rfl | rfl
    · rw [hb]
      exact hfound'.owner_eq
    · rw [ha]
      exact hfound.owner_eq
  | pool =>
    obtain ⟨p, hp, rfl⟩ := map_eq_ok_iff.1 hfind
    obtain ⟨⟨a, hfound, rfl⟩, -⟩ := Pool.attach_eq_ok_iff.1 (Prod.ext hp rfl)
    exact hone hfound.owner_eq
  | record type =>
    obtain ⟨c, hc, rfl⟩ := map_eq_ok_iff.1 hfind
    obtain ⟨⟨a, hfound, rfl⟩, -⟩ := LatestRecord.attach_eq_ok_iff.1 (Prod.ext hc rfl)
    exact hone hfound.owner_eq
  | region =>
    obtain ⟨r, hr, rfl⟩ := map_eq_ok_iff.1 hfind
    obtain ⟨⟨a, hfound, rfl⟩, -⟩ := Region.attach_eq_ok_iff.1 (Prod.ext hr rfl)
    exact hone hfound.owner_eq

/-! ## Runs -/

/-- A directory and the holds on its objects. -/
structure Tenants where
  directory : Directory
  holdings : List Holding

/-- What may happen to names and holds. Those who hold objects also change their contents, and the
system may come to refuse other calls than before. -/
inductive Deed where
  | make (name : String) (plan : Plan)
  | find (name : String) (sought : Sought)
  | unlink (name : String)
  | change (id : ObjectId) (contents : Memory)
  | temper (objection : String → SystemCall → Option OsCause)
  /-- The hold at a position of the list ends. -/
  | drop (position : Nat)

namespace Tenants

/-- A directory that nobody holds anything of. -/
def start (d : Directory) : Tenants := ⟨d, []⟩

/-- Whoever asks with success gets a hold, at the end of the list. -/
def step (t : Tenants) : Deed → Tenants
  | .make name plan =>
    match plan.make name t.directory with
    | (.error _, d) => { t with directory := d }
    | (.ok h, d) => ⟨d, t.holdings ++ [h]⟩
  | .find name sought =>
    match sought.find name t.directory with
    | (.error _, d) => { t with directory := d }
    | (.ok h, d) => ⟨d, t.holdings ++ [h]⟩
  | .unlink name => { t with directory := (t.directory.unlink name).2 }
  | .change id contents => { t with directory := t.directory.update id contents }
  | .temper objection => { t with directory := { t.directory with objection } }
  | .drop position =>
    match t.holdings[position]? with
    | none => t
    | some h => ⟨h.release t.directory, t.holdings.eraseIdx position⟩

/-- What is left after some deeds. -/
def after (t : Tenants) (deeds : List Deed) : Tenants := deeds.foldl step t

variable {t : Tenants} {name : String} {h : Holding}

/-- Deeds are done one after the other. -/
theorem after_append (t : Tenants) (deeds more : List Deed) :
    t.after (deeds ++ more) = (t.after deeds).after more := List.foldl_append

/-- A deed takes names away or has new ones made, but not both. -/
theorem step_directory (t : Tenants) (deed : Deed) :
    t.directory.Grows (t.step deed).directory ∨ t.directory.Sheds (t.step deed).directory := by
  cases deed with
  | make name plan =>
    have houtcome := plan.make_outcome name t.directory
    rw [step]
    split
    · next hrefused => exact .inl (houtcome.untouched hrefused).grows
    · next hmade => exact .inl (houtcome.of_made hmade).1
  | find name sought =>
    have hsame := sought.find_snd name t.directory
    rw [step]
    split
    · next hrefused =>
      rw [hrefused] at hsame
      exact .inr (hsame.symm ▸ .refl _)
    · next hfound =>
      rw [hfound] at hsame
      exact .inr (hsame.symm ▸ .refl _)
  | unlink name => exact .inr (t.directory.sheds_unlink name)
  | change id contents => exact .inr (t.directory.sheds_update id contents)
  | temper objection => exact .inr ⟨fun _ => .inl rfl, rfl⟩
  | drop position =>
    rw [step]
    split
    · exact .inr (.refl _)
    · next h _ => exact .inr (h.sheds_release t.directory)

/-! ## Where a name leads -/

/-- Numbers are not given twice, so a name that does not lead to an object that exists will never
lead there. -/
theorem not_leads_after {id : ObjectId} (hborn : id < t.directory.nextObject)
    (hnot : t.directory.names[name]? ≠ some (.object id)) (deeds : List Deed) :
    (t.after deeds).directory.names[name]? ≠ some (.object id) := by
  induction deeds generalizing t with
  | nil => exact hnot
  | cons deed deeds ih =>
    rcases t.step_directory deed with hgrows | hsheds
    · refine ih (hborn.trans_le hgrows.nextObject_le) ?_
      rcases hgrows.names_eq name with hsame | ⟨-, other, hother, hleads⟩
      · rwa [hsame]
      · -- the name came into use, and leads to something newer
        rw [hleads]
        intro heq
        cases heq
        exact absurd hborn (Nat.not_lt.2 hother)
    · refine ih (by rwa [hsheds.nextObject_eq]) ?_
      rcases hsheds.names_eq name with hsame | hgone
      · rwa [hsame]
      · rw [hgone]
        exact nofun

/-- Numbers of objects go up. -/
theorem nextObject_le_after (t : Tenants) (deeds : List Deed) :
    t.directory.nextObject ≤ (t.after deeds).directory.nextObject := by
  induction deeds generalizing t with
  | nil => exact Nat.le_refl _
  | cons deed deeds ih =>
    refine le_trans ?_ (ih (t.step deed))
    rcases t.step_directory deed with hgrows | hsheds
    · exact hgrows.nextObject_le
    · exact hsheds.nextObject_eq.ge

/-- The name has led to some object all the time. -/
def Lasts (t : Tenants) (name : String) (deeds : List Deed) : Prop :=
  ∀ done, done <+: deeds → (t.after done).directory.reaches name = true

/-- A name that leads to an object goes on to lead there for as long as it is in use without a
break. -/
theorem leads_iff {id : ObjectId} (hborn : id < t.directory.nextObject)
    (hleads : t.directory.names[name]? = some (.object id)) (deeds : List Deed) :
    (t.after deeds).directory.names[name]? = some (.object id) ↔ t.Lasts name deeds := by
  constructor
  · rintro hend done ⟨rest, rfl⟩
    -- once out of use, the name would never have led there again
    by_contra hbreak
    refine not_leads_after (hborn.trans_le (t.nextObject_le_after done)) ?_ rest
      (by rwa [← after_append])
    intro hled
    exact hbreak (Directory.reaches_of_leads hled)
  · intro hlasts
    induction deeds using List.reverseRecOn with
    | nil => exact hleads
    | append_singleton deeds deed ih =>
      have hbefore := ih fun done hdone => hlasts done (hdone.trans (List.prefix_append ..))
      have hend := hlasts _ (List.prefix_refl _)
      rw [after_append] at hend ⊢
      -- a name in use is not given away, so the last deed could only have taken it away
      rcases (t.after deeds).step_directory deed with hgrows | hsheds
      · exact hgrows.leads hbefore
      · rcases hsheds.names_eq name with hsame | hgone
        · exact hsame.trans hbefore
        · obtain ⟨other, hother⟩ := Directory.reaches_eq_true_iff.1 hend
          exact absurd (hgone.symm.trans hother) nofun

/-! ## Where a hold comes from -/

/-- A hold that is there after a deed was there before, or came with it. -/
theorem mem_holdings_step {deed : Deed} (hmem : h ∈ (t.step deed).holdings) :
    h ∈ t.holdings ∨ (t.step deed).holdings = t.holdings ++ [h] ∧
      ∀ a ∈ h.attachments, a.owner = true → (t.step deed).directory.Owns a := by
  have hlast : ∀ {h' : Holding}, h ∈ t.holdings ++ [h'] → h ∈ t.holdings ∨ h = h' := fun hmem =>
    (List.mem_append.1 hmem).imp_right List.mem_singleton.1
  cases deed with
  | make name plan =>
    rw [step] at hmem ⊢
    split at hmem
    · exact .inl hmem
    · next h' d hmade =>
      refine (hlast hmem).imp_right ?_
      rintro rfl
      exact ⟨rfl, fun a ha _ => ((plan.make_outcome name t.directory).of_made hmade).2 a ha⟩
  | find name sought =>
    rw [step] at hmem ⊢
    split at hmem
    · exact .inl hmem
    · next h' d hfound =>
      refine (hlast hmem).imp_right ?_
      rintro rfl
      refine ⟨rfl, fun a ha howner => ?_⟩
      -- whoever only finds an object is not its owner
      rw [Sought.owner_of_find (congrArg Prod.fst hfound) a ha] at howner
      cases howner
  | unlink name => exact .inl hmem
  | change id contents => exact .inl hmem
  | temper objection => exact .inl hmem
  | drop position =>
    rw [step] at hmem
    split at hmem
    · exact .inl hmem
    · exact .inl (List.eraseIdx_subset hmem)

/-- Whoever holds something asked for it once. -/
theorem exists_request {d : Directory} {deeds : List Deed}
    (hmem : h ∈ ((start d).after deeds).holdings) :
    ∃ earlier request later, deeds = earlier ++ request :: later ∧
      (((start d).after earlier).step request).holdings =
        ((start d).after earlier).holdings ++ [h] ∧
      ∀ a ∈ h.attachments, a.owner = true →
        (((start d).after earlier).step request).directory.Owns a := by
  induction deeds using List.reverseRecOn with
  | nil => cases hmem
  | append_singleton deeds deed ih =>
    rw [after_append] at hmem
    -- the hold came with the last deed, or was there before
    rcases mem_holdings_step hmem with hbefore | ⟨hnew, howns⟩
    · obtain ⟨earlier, request, later, rfl, hrequest⟩ := ih hbefore
      exact ⟨earlier, request, later ++ [deed], by simp, hrequest⟩
    · exact ⟨deeds, deed, [], rfl, hnew, howns⟩

/-! ## What goes with a hold -/

/-- The names that go when a hold ends lead to what that very hold was made with. -/
def Spares (t : Tenants) (position : Nat) (h : Holding) : Prop :=
  ∀ name id, t.directory.names[name]? = some (.object id) →
    (t.step (.drop position)).directory.names[name]? = none →
      ∃ a ∈ h.attachments, a.owner = true ∧ a.name = name ∧ a.object = id

/-- What goes with a hold, seen from when it was made. -/
theorem spares_iff_lasts (howns : ∀ a ∈ h.attachments, a.owner = true → t.directory.Owns a)
    {later : List Deed} {position : Nat} (hheld : (t.after later).holdings[position]? = some h) :
    (∀ name, ((t.after later).step (.drop position)).directory.names[name]? =
      if (∃ a ∈ h.attachments, a.owner = true ∧ a.name = name) ∧
          (t.after later).directory.reaches name = true then none
      else (t.after later).directory.names[name]?) ∧
    ((t.after later).Spares position h ↔ ∀ a ∈ h.attachments, a.owner = true →
      (t.after later).directory.reaches a.name = true → t.Lasts a.name later) := by
  have hdrop : (t.after later).step (.drop position) =
      ⟨h.release (t.after later).directory, (t.after later).holdings.eraseIdx position⟩ := by
    rw [step, hheld]
  have hnames := Holding.getElem?_names_release (fun a ha howner => (howns a ha howner).name_ok)
    (t.after later).directory
  have hleads := fun {a} ha howner =>
    leads_iff (howns a ha howner).object_lt (howns a ha howner).leads later
  refine ⟨fun name => by rw [hdrop, hnames], ?_⟩
  simp only [Spares, hdrop, hnames]
  constructor
  · intro hspares a ha howner hreaches
    obtain ⟨id, hid⟩ := Directory.reaches_eq_true_iff.1 hreaches
    -- the object may belong to another part of the same handle
    obtain ⟨b, hb, hbowner, hbname, rfl⟩ :=
      hspares a.name id hid (if_pos ⟨⟨a, ha, howner, rfl⟩, hreaches⟩)
    rw [← hbname] at hid ⊢
    exact (hleads hb hbowner).1 hid
  · intro hlasts name id hid hgone
    have hreaches := Directory.reaches_of_leads hid
    by_cases hclaimed : ∃ a ∈ h.attachments, a.owner = true ∧ a.name = name
    · obtain ⟨a, ha, howner, rfl⟩ := hclaimed
      have hown := (hleads ha howner).2 (hlasts a ha howner hreaches)
      rw [hid] at hown
      cases hown
      exact ⟨a, ha, howner, rfl, rfl⟩
    · rw [if_neg fun h => hclaimed h.1, hid] at hgone
      cases hgone

/-- With a hold go the names under which it was made, as far as they lead to objects. They lead to
what the hold was made with exactly if they have been in use ever since, without a break. -/
theorem spares_iff (d : Directory) (deeds : List Deed) {position : Nat} {h : Holding}
    (hheld : ((start d).after deeds).holdings[position]? = some h) :
    (∀ name, (((start d).after deeds).step (.drop position)).directory.names[name]? =
      if (∃ a ∈ h.attachments, a.owner = true ∧ a.name = name) ∧
          ((start d).after deeds).directory.reaches name = true then none
      else ((start d).after deeds).directory.names[name]?) ∧
    ∃ earlier request later, deeds = earlier ++ request :: later ∧
      (((start d).after earlier).step request).holdings =
        ((start d).after earlier).holdings ++ [h] ∧
      (((start d).after deeds).Spares position h ↔ ∀ a ∈ h.attachments, a.owner = true →
        ((start d).after deeds).directory.reaches a.name = true →
          (((start d).after earlier).step request).Lasts a.name later) := by
  obtain ⟨earlier, request, later, rfl, hrequest, howns⟩ :=
    exists_request (List.mem_of_getElem? hheld)
  have hrest : (start d).after (earlier ++ request :: later) =
    (((start d).after earlier).step request).after later := after_append ..
  rw [hrest] at hheld ⊢
  obtain ⟨hnames, hspares⟩ := spares_iff_lasts howns hheld
  exact ⟨hnames, earlier, request, later, rfl, hrequest, hspares⟩

/-- Somebody makes an object, its name is taken away and given to a ring, and then the first hold
ends. The name led to the ring, which its maker still holds, and leads nowhere afterwards. -/
theorem spares_iff_renamed :
    let first : Holding := .object ⟨0, "scene", 64, true⟩
    let t := (start .empty).after
      [.make "scene" (.object 64), .unlink "scene", .make "scene" (.ring 4 .standard)]
    t.holdings[0]? = some first ∧ t.directory.names["scene"]? = some (.object 1) ∧
      (t.step (.drop 0)).directory.names["scene"]? = none ∧ ¬t.Spares 0 first := by
  intro first t
  have hheld : t.holdings[0]? = some first := by rfl
  have hleads : t.directory.names["scene"]? = some (.object 1) := by rfl
  have hgone : (t.step (.drop 0)).directory.names["scene"]? = none := by
    rw [(spares_iff .empty _ hheld).1 "scene"]
    exact if_pos ⟨⟨_, List.mem_singleton_self _, rfl, rfl⟩, Directory.reaches_of_leads hleads⟩
  refine ⟨hheld, hleads, hgone, fun hspares => ?_⟩
  obtain ⟨a, ha, -, -, hobject⟩ := hspares "scene" 1 hleads hgone
  rw [List.mem_singleton.1 ha] at hobject
  cases hobject

end Tenants
end SharedExchange
