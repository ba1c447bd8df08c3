import Mathlib.Tactic
import SharedExchange.Proofs.Delivery.Keeping

/-! # Deliveries are in order

What the parties can rely on, whatever they and others have done. Everything sent comes out in the
order in which it went in, and no block is lost or owned twice (`Delivery.orderly_of_run`). Sending
a value is all or nothing (`Delivery.sendValue_of_run`). -/

namespace SharedExchange

/-- The books are right, so the blocks of a pool are. -/
theorem Pool.Accounted.intact {p : Pool} {m : Memory} {live : List BlockRef}
    (h : p.Accounted m live) : p.Intact m live := h.sound.intact h.inside

/-- A message that brings a block or was made of a value can be read as a value. -/
theorem Sending.Stands.readable {pools : List Pool} {d : Directory} {s : Sending}
    (h : s.Stands pools d) (hcarries : s.block.isSome ∨ s.value.isSome) : s.Readable := by
  rcases hcarries with hblock | hvalue
  · obtain ⟨b, hb⟩ := Option.isSome_iff_exists.1 hblock
    rw [Readable, h.body_eq b hb, hb]
    rfl
  · obtain ⟨v, hv⟩ := Option.isSome_iff_exists.1 hvalue
    exact (h.value_eq v hv).2.2

namespace Delivery

variable {x : Delivery} {capacity : UInt64} {r : Ring} {pool : Option Pool} {d : Directory}

/-! ## Order and ownership -/

/-- What can be relied on at any time. -/
structure Orderly (x : Delivery) : Prop where
  /-- What was got is what the messages yield in the order in which they were sent. -/
  in_order : List.Forall₂ Sending.Yields (x.sent.take x.taken.length) x.taken
  /-- The others are on the ring. -/
  on_ring : Ring.messages x.parties.receiver.capacity (x.directory.memory x.ring) =
    x.pending.map Sending.message
  /-- A block on its way is named by the message that brings it. -/
  named : ∀ s ∈ x.pending, ∀ b ∈ s.block, s.message.body = .pooled b
  /-- A message that brings a block or was made of a value can be read as a value. -/
  readable : ∀ s ∈ x.pending, s.block.isSome ∨ s.value.isSome → s.Readable
  /-- The blocks in use are those on their way and those that are held. -/
  in_use : ∀ p ∈ x.pools,
    p.Intact (x.directory.memory p.attachment.object) (x.onWay ++ x.held)
  /-- Nothing is taken when nothing is pending. -/
  takes_none : x.pending = [] → ∀ pool node,
    (x.parties.receiver.receiveValue? pool node x.directory).1 = none
  /-- The oldest message is taken for what its bytes decode to. The block that came with it is given
  back, and given back once, even if they decode to nothing. -/
  takes : ∀ s rest, x.pending = s :: rest → s.Readable → ∀ p ∈ x.pools, ∀ node, ∃ r d,
    x.parties.receiver.receiveValue? (some p) node x.directory = (some (s.reading node), r, d) ∧
      p.Intact (d.memory p.attachment.object) (rest.filterMap Sending.block ++ x.held) ∧
      (p.stats (d.memory p.attachment.object)).allocations =
        (p.stats (x.directory.memory p.attachment.object)).allocations ∧
      (p.stats (d.memory p.attachment.object)).deallocations =
        (p.stats (x.directory.memory p.attachment.object)).deallocations +
          (if s.block.isSome then 1 else 0)
  /-- When all was taken and nothing is held, all was given back. -/
  settled : x.pending = [] → x.held = [] → ∀ p ∈ x.pools,
    (p.stats (x.directory.memory p.attachment.object)).allocations =
        (p.stats (x.directory.memory p.attachment.object)).deallocations ∧
      (p.stats (x.directory.memory p.attachment.object)).bytesInUse = 0

/-- Taking the oldest message for its value. -/
theorem Kept.takes (h : x.Kept capacity) {s : Sending} {rest : List Sending}
    (hpending : x.pending = s :: rest) (hreadable : s.Readable) {p : Pool} (hp : p ∈ x.pools)
    (node : NodeId) : ∃ r d,
    x.parties.receiver.receiveValue? (some p) node x.directory = (some (s.reading node), r, d) ∧
      p.Intact (d.memory p.attachment.object) (rest.filterMap Sending.block ++ x.held) ∧
      (p.stats (d.memory p.attachment.object)).allocations =
        (p.stats (x.directory.memory p.attachment.object)).allocations ∧
      (p.stats (d.memory p.attachment.object)).deallocations =
        (p.stats (x.directory.memory p.attachment.object)).deallocations +
          (if s.block.isSome then 1 else 0) := by
  have hserve := h.serve
  rw [hpending] at hserve
  obtain ⟨r, m', heq, -⟩ := hserve.receiveValue_cons (some p) node
  obtain ⟨d, hvalue, -, hstocked, -, hnone, hsome⟩ := h.toValue hp hpending hreadable node m'
  rw [hvalue] at heq
  refine ⟨r, d, heq, (hstocked.accounted p hp).intact, ?_⟩
  cases hblock : s.block with
  | none =>
    rw [hnone hblock]
    exact ⟨rfl, (UInt64.add_zero _).symm⟩
  | some b =>
    obtain ⟨size, hledger⟩ := hsome b hblock
    exact p.stats_takeBack hledger

/-- What is kept is all that can be relied on. -/
theorem Kept.orderly (h : x.Kept capacity) : x.Orderly where
  in_order := h.yields
  on_ring := by
    rw [h.serve.receives.capacity_eq]
    exact h.serve.messages_eq
  named s hs := (h.stands s hs).body_eq
  readable s hs hcarries := (h.stands s hs).readable hcarries
  in_use p hp := (h.stocked.accounted p hp).intact
  takes_none hpending pool node := by
    have hserve := h.serve
    rw [hpending] at hserve
    obtain ⟨r, heq, -⟩ := hserve.receiveValue_nil pool node
    rw [heq]
  takes s rest hpending hreadable p hp node := h.takes hpending hreadable hp node
  settled hpending hheld p hp := by
    have haccounted := h.stocked.accounted p hp
    rw [onWay, hpending, hheld] at haccounted
    exact haccounted.stats_nil

/-- Whatever the parties do, in whatever order and through whichever handles, messages come out as
they were sent, and every block is on its way, held or given back. -/
theorem orderly_of_run (hfresh : Fresh r pool d)
    (hrun : Relation.ReflTransGen Next (start r pool d) x) : x.Orderly :=
  (hfresh.kept.run hrun).orderly

/-- A value whose wire form fits into no slot. -/
def letter : Value := .text 0 (String.ofList (List.replicate 250 'a'))

/-- A ring with two slots and a pool with 1024 bytes, and a value that is too long for a slot. -/
theorem exists_letter_sent : ∃ r p d s d', Fresh r (some p) d ∧
    (Body.ofValue letter (some p) d).1 = .ok (.pooled ⟨16, 255⟩) ∧
    r.sendValue ⟨1, 2, 3⟩ letter (some p) d = (.ok (), s, d') := by
  let r : Ring := ⟨⟨0, "events", 896, true⟩, 2, 0, 0, default⟩
  let p : Pool := ⟨⟨1, "blocks", 1792, true⟩, 1024, 768⟩
  let d₁ := (Ring.create "events" 2 default Directory.empty).2
  let d₂ := (Pool.create "blocks" 1024 d₁).2
  have hring : (Ring.create "events" 2 default Directory.empty).1 = .ok r :=
    congrArg Prod.fst (Ring.create_eq_ok_iff.2
      ⟨⟨1, rfl⟩, Directory.grants_empty (by decide) (by decide) (by decide), rfl, rfl⟩)
  have hring : Ring.create "events" 2 default Directory.empty = (.ok r, d₁) := Prod.ext hring rfl
  have hgrants : d₁.Grants "blocks" (Pool.wholeSize 1024) := by
    obtain ⟨-, -, -, hd⟩ := Ring.create_eq_ok_iff.1 hring
    have hwilling : d₁.Willing "blocks" := by
      rw [hd]
      exact Directory.willing_empty "blocks"
    exact hwilling.grants (by decide) (by decide +kernel) (by decide) (by decide)
  -- the second object is another than the first
  have hnext : d₁.nextObject = 1 := by decide +kernel
  have hpool : (Pool.create "blocks" 1024 d₁).1 = .ok p :=
    congrArg Prod.fst (Pool.create_eq_ok_iff.2
      ⟨⟨by decide, by decide⟩, hgrants, by rw [hnext]; rfl, rfl⟩)
  have hpool : Pool.create "blocks" 1024 d₁ = (.ok p, d₂) := Prod.ext hpool rfl
  have hbody : (Body.ofValue letter (some p) d₂).1 = .ok (.pooled ⟨16, 255⟩) := by decide +kernel
  have hsend : (r.sendValue ⟨1, 2, 3⟩ letter (some p) d₂).1 = .ok () := by decide +kernel
  have hmemory : d₂.memory 0 = d₁.memory 0 :=
    Pool.memory_of_create hpool (by rw [hnext]; decide)
  -- from here on it does not matter what the objects look like
  clear_value d₁ d₂
  obtain ⟨⟨answer, s, d'⟩, hsent⟩ : ∃ result, r.sendValue ⟨1, 2, 3⟩ letter (some p) d₂ = result :=
    ⟨_, rfl⟩
  rw [hsent] at hsend
  refine ⟨r, p, d₂, s, d', ⟨⟨_, _, _, _, _, hring, hmemory⟩, ?_, ?_⟩, hbody, ?_⟩
  · intro q hq
    cases hq
    exact ⟨_, _, _, _, hpool, rfl⟩
  · intro q hq
    cases hq
    decide
  · rw [hsent, ← hsend]

/-- The value comes out with the content with which it went in, and its block is given back. -/
theorem orderly_of_run_letter : ∃ r p d x w, Fresh r (some p) d ∧
    Relation.ReflTransGen Next (start r (some p) d) x ∧ p ∈ x.pools ∧
    x.taken = [.value 7 (.ok (⟨⟨1, 2, 3⟩, .pooled ⟨16, 255⟩⟩, w))] ∧
    w.content = letter.content ∧
    (p.stats (x.directory.memory p.attachment.object)).allocations =
      (p.stats (x.directory.memory p.attachment.object)).deallocations ∧
    (p.stats (x.directory.memory p.attachment.object)).bytesInUse = 0 := by
  obtain ⟨r, p, d, s, d', hfresh, hbody, hsend⟩ := exists_letter_sent
  have hcount : letter.wireLength < UInt64.size := by decide +kernel
  have hordered : letter.Ordered := trivial
  have hfits : letter.Fits := by
    rw [letter, Value.Fits]
    decide +kernel
  generalize letter = v at *
  have hpool : ∀ q ∈ some p, q ∈ (start r (some p) d).pools := fun q => Option.mem_toList.2
  let sending := Sending.ofValue ⟨1, 2, 3⟩ v (.pooled ⟨16, 255⟩)
  obtain ⟨y, hposted, hsent, hnone, hpools, hheld⟩ : ∃ y, Next (start r (some p) d) y ∧
      y.sent = [sending] ∧ y.taken = [] ∧ y.pools = [p] ∧ y.held = [] :=
    ⟨_, .sendValue hpool _ v hcount hsend, congrArg (posted _ v · _) hbody, rfl, rfl, rfl⟩
  have hp : p ∈ y.pools := by
    rw [hpools]
    exact List.mem_singleton_self p
  have hpending : y.pending = [sending] := by
    rw [pending, hsent, hnone]
    rfl
  -- the message is pending, and is taken next
  obtain ⟨t, d'', hreceive, -⟩ :=
    (orderly_of_run hfresh (.single hposted)).takes _ [] hpending rfl p hp 7
  have hfront : ∀ s ∈ y.pending.head?, s.Readable := by
    rw [hpending]
    intro s hs
    cases hs
    rfl
  have hrun := Relation.ReflTransGen.tail (.single hposted) (.receiveValue hp hfront 7 hreceive)
  have horderly := orderly_of_run hfresh hrun
  have hyields := horderly.in_order
  simp only [hsent, hnone] at hyields
  obtain ⟨-, hyields⟩ := (List.forall₂_cons.1 hyields).1
  obtain ⟨w, hw, hcontent⟩ := hyields v rfl hordered hfits
  refine ⟨r, p, d, _, w, hfresh, hrun, hp, ?_, hcontent, horderly.settled ?_ hheld p hp⟩
  · simp only [hnone]
    exact congrArg (fun answer => [Receipt.value 7 answer]) hw
  · simp only [pending, hsent, hnone]
    rfl

/-! ## All or nothing -/

/-- What has changed when a value has been sent: one message is appended to the ring, and if the
value did not fit into it, one block more is in use. -/
inductive Posted (x : Delivery) (label : Label) (v : Value) (pool : Option Pool) (d : Directory) :
    Prop
  | inline (hfits : v.wireLength ≤ inlineLimit)
    (hring : Ring.messages x.parties.sender.capacity (d.memory x.ring) =
      Ring.messages x.parties.sender.capacity (x.directory.memory x.ring) ++
        [⟨label, .inline v.wire⟩])
    (hother : ∀ id, id ≠ x.ring → d.memory id = x.directory.memory id)
  | pooled {p : Pool} {b : BlockRef} (hp : p ∈ pool) (hlong : inlineLimit < v.wireLength)
    (hring : Ring.messages x.parties.sender.capacity (d.memory x.ring) =
      Ring.messages x.parties.sender.capacity (x.directory.memory x.ring) ++
        [⟨label, .pooled b⟩])
    (hblock : p.Intact (d.memory p.attachment.object) (b :: (x.onWay ++ x.held)))
    (hcontents : p.contents (d.memory p.attachment.object) b = v.wire)
    (hcounted : (p.stats (d.memory p.attachment.object)).allocations =
        (p.stats (x.directory.memory p.attachment.object)).allocations + 1 ∧
      (p.stats (d.memory p.attachment.object)).deallocations =
        (p.stats (x.directory.memory p.attachment.object)).deallocations)
    (hother : ∀ id, id ≠ x.ring → id ≠ p.attachment.object →
      d.memory id = x.directory.memory id)

/-- Sending a value either changes no byte of any object, or appends its message. The length of the
wire form is one that a word can count. -/
theorem sendValue_of_run (hfresh : Fresh r pool d)
    (hrun : Relation.ReflTransGen Next (start r pool d) x) {helper : Option Pool}
    (hhelper : ∀ p ∈ helper, p ∈ x.pools) (label : Label) (v : Value)
    (hcount : v.wireLength < UInt64.size) :
    (∃ fault s d', x.parties.sender.sendValue label v helper x.directory = (.error fault, s, d') ∧
        ∀ id, d'.memory id = x.directory.memory id) ∨
      ∃ s d', x.parties.sender.sendValue label v helper x.directory = (.ok (), s, d') ∧
        x.Posted label v helper d' := by
  have h := hfresh.kept.run hrun
  have hapart : ∀ p ∈ helper, x.ring ≠ p.attachment.object := fun p hp =>
    h.stocked.apart p (hhelper p hp)
  obtain ⟨fault, s, d', heq, hsame, -⟩ | ⟨body, d₁, s, m', heq, -, -, hcarried, hserve⟩ :=
    h.serve.sendValue_cases hapart (fun p hp => h.stocked.accounted p (hhelper p hp)) label v hcount
  · exact .inl ⟨fault, s, d', heq, hsame⟩
  · refine .inr ⟨s, _, heq, ?_⟩
    have hring : Ring.messages x.parties.sender.capacity ((d₁.update x.ring m').memory x.ring) =
        Ring.messages x.parties.sender.capacity (x.directory.memory x.ring) ++
          [⟨label, body⟩] := by
      rw [Directory.memory_update_same, h.serve.sends.capacity_eq, hserve.messages_eq,
        h.serve.messages_eq]
    have hother : ∀ id, id ≠ x.ring → (d₁.update x.ring m').memory id = d₁.memory id :=
      fun id hid => Directory.memory_update_of_ne _ _ hid
    cases hcarried with
    | inline hfits hsame =>
      exact .inline hfits hring fun id hid => (hother id hid).trans (hsame id)
    | @pooled p b hp hlong hrest hgiven hcontents _ hledger =>
      have hpool := hother p.attachment.object (hapart p hp).symm
      obtain ⟨size, hledger⟩ := hledger
      refine .pooled hp hlong hring ?_ ?_ ?_ fun id hid hne => (hother id hid).trans (hrest id hne)
      · rw [hpool]
        exact hgiven.intact
      · rw [hpool, hcontents]
      · rw [hpool]
        exact p.stats_handOut hledger

/-- The value is not refused, so it is sent. -/
theorem sendValue_of_run_letter : ∃ r p d s d', Fresh r (some p) d ∧
    r.sendValue ⟨1, 2, 3⟩ letter (some p) d = (.ok (), s, d') ∧
    (start r (some p) d).Posted ⟨1, 2, 3⟩ letter (some p) d' := by
  obtain ⟨r, p, d, s, d', hfresh, -, hsend⟩ := exists_letter_sent
  have hpool : ∀ q ∈ some p, q ∈ (start r (some p) d).pools := fun q => Option.mem_toList.2
  have hsame : (start r (some p) d).parties.sender.sendValue ⟨1, 2, 3⟩ letter (some p)
      (start r (some p) d).directory = (.ok (), s, d') := hsend
  obtain ⟨fault, t, d₁, heq, -⟩ | ⟨t, d₁, heq, hposted⟩ :=
    sendValue_of_run hfresh .refl hpool ⟨1, 2, 3⟩ letter (by decide +kernel)
  · rw [hsame] at heq
    cases heq
  · rw [hsame] at heq
    cases heq
    exact ⟨r, p, d, s, d', hfresh, hsend, hposted⟩

end Delivery
end SharedExchange
