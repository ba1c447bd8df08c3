import SharedExchange.Proofs.LatestRecord.Sharing

/-! # Writes that are given up

A writer may stop in the middle of a write, and another one take over. Nothing undoes the mark that
the first one left on its slot, so that the next write to this slot takes the count from odd to even
while it is under way and leaves it odd when it is complete: the count is off (`Agrees.abandon`),
until a second write is given up in the same slot. A reader of a slot whose count is off takes the
complete record for one under construction (`Agrees.stall`).

So a cell answers like a `Ledger`. At any time its readers find the record published last if an even
number of writes was given up in the slot of that record, and nothing otherwise
(`answers_eq_ledger`). -/

namespace SharedExchange

namespace LatestRecord

namespace Sharing

variable {α : Type} {c q : LatestRecord} {s : Sharing} {r : Register} {l : Ledger}
  {off : Nat → Bool} {handle : Nat}

/-- What the cell answers, and what becomes of it. A write that is given up leaves the cell as it is
at that time, and another one may be started. -/
def move (s : Sharing) : Move α → Answer α × Sharing
  | .ask operation => s.step operation
  | .abandon =>
    match s.writing with
    | some _ => (.done, { s with writing := none })
    | none => (.passed, s)

/-- The cell after moves in their order. -/
def moved (s : Sharing) : List (Move α) → Sharing
  | [] => s
  | m :: moves => (s.move m).2.moved moves

/-- The answers to moves in their order. -/
def answers (s : Sharing) : List (Move α) → List (Answer α)
  | [] => []
  | m :: moves => (s.move m).1 :: (s.move m).2.answers moves

/-! ## One move -/

/-- Whoever reads a slot whose count is off finds nothing. -/
theorem Agrees.stall (h : Agrees off c s r) (hoff : off (r.published % 2) = true)
    (operation : Operation α) :
    Matches off c s (s.step operation) (r.stall operation) := by
  have hnothing : ∀ q : LatestRecord, q.read? (s.contents c) = (none, q) := fun _ =>
    read?_of_underway (h.underway_active.trans hoff)
  cases operation with
  | read handle =>
    refine h.via fun q _ hq hfollows _ => ?_
    simp only [hfollows.contents_eq, hnothing, keep_self hq]
    exact h.answered fun _ => rfl
  | readWith handle visit =>
    refine h.via fun q _ hq hfollows _ => ?_
    simp only [readWith?, hfollows.contents_eq, hnothing, keep_self hq]
    exact h.answered fun _ => rfl
  | readUpdate handle atHand =>
    refine h.via fun q news hq hfollows hnews => ?_
    have hsame : r.published < UInt64.size → q.hasUpdate (s.contents c) = news := fun hcount =>
      (h.hasUpdate_eq hcount q).trans (hnews hcount).symm
    simp only [readUpdate?, hfollows.contents_eq, hnothing]
    -- the handle and the register know the same about news, while generations can be counted
    cases hfresh : q.hasUpdate (s.contents c) with
    | true =>
      simp only [if_true, keep_self hq]
      cases news with
      | true => exact h.answered fun _ => rfl
      | false => exact h.answered fun hcount => Bool.noConfusion (hfresh.symm.trans (hsame hcount))
    | false =>
      simp only [Bool.false_eq_true, if_false, keep_self hq]
      cases news with
      | true => exact h.answered fun hcount => Bool.noConfusion (hfresh.symm.trans (hsame hcount))
      | false => exact h.answered fun _ => rfl
  | _ => exact h.answer _ fun hreads => Bool.noConfusion hreads

/-- One more turns over whether a count is odd. -/
theorem beq_one_succ (n : Nat) : ((n + 1) % 2 == 1) = !(n % 2 == 1) := by
  rcases Nat.mod_two_eq_zero_or_one n with h | h
  · rw [h, Nat.succ_mod_two_eq_one_iff.2 h]
    rfl
  · rw [h, Nat.succ_mod_two_eq_zero_iff.2 h]
    rfl

/-- A write that is given up turns over for good what the count of its slot says. -/
theorem Agrees.abandon (h : Agrees l.off c s l.register) :
    (s.move (α := α) .abandon).1 = (l.step (α := α) .abandon).1 ∧
      Agrees (l.step (α := α) .abandon).2.off c (s.move (α := α) .abandon).2
        (l.step (α := α) .abandon).2.register := by
  rw [move, Ledger.step]
  obtain ⟨hwriting, hdraft, -⟩ | ⟨q, draft, bytes, hwriting, hdraft, -, hdrafting⟩ := h.phase
  · rw [hwriting, hdraft]
    exact ⟨rfl, h⟩
  · rw [hwriting, hdraft]
    refine ⟨rfl, { h with phase := .inl ⟨rfl, rfl, fun slot hslot => ?_⟩ }⟩
    have hother : draft.slot = (l.register.published + 1) % 2 := by
      rw [hdrafting.slot_eq, h.holds.active_eq, mod_two_succ]
    have hlt := h.holds.active_lt
    show underway (s.contents c) slot = ((l.abandoned slot + _) % 2 == 1)
    rw [← hother]
    by_cases hsame : slot = draft.slot
    · -- the count was turned over once, and the second time does not come
      rw [if_pos hsame, hsame, hdrafting.marked, Ledger.off, beq_one_succ]
    · have hactive : slot = active (s.contents c) := by
        by_contra hne
        exact hsame (hdrafting.slot_eq ▸ eq_other hlt hslot hne)
      rw [if_neg hsame, Nat.add_zero, hactive]
      exact hdrafting.unmarked

/-- One move is answered like the ledger answers it. -/
theorem Agrees.move (h : Agrees l.off c s l.register) (m : Move α) :
    ((l.step m).2.register.published < UInt64.size → (s.move m).1 = (l.step m).1) ∧
      Agrees (l.step m).2.off c (s.move m).2 (l.step m).2.register := by
  cases m with
  | ask operation =>
    rw [Ledger.step, Ledger.reply]
    by_cases hoff : l.off l.slot = true
    · rw [if_pos hoff]
      obtain ⟨hanswer, hnext, -⟩ := h.stall hoff operation
      exact ⟨hanswer, hnext⟩
    · rw [if_neg hoff]
      have hclear : l.off l.slot = false := Bool.not_eq_true _ ▸ hoff
      obtain ⟨hanswer, hnext, -⟩ := h.answer operation fun _ => hclear
      exact ⟨hanswer, hnext⟩
  | abandon =>
    obtain ⟨hanswer, hnext⟩ := h.abandon (α := α)
    exact ⟨fun _ => hanswer, hnext⟩

/-! ## All moves -/

/-- All moves leave a cell like the ledger. -/
theorem Agrees.moved (h : Agrees l.off c s l.register) (moves : List (Move α)) :
    Agrees (l.after moves).off c (s.moved moves) (l.after moves).register := by
  induction moves generalizing s l with
  | nil => exact h
  | cons m moves ih => exact ih (h.move m).2

/-- All moves are answered like the ledger answers them. -/
theorem Agrees.answers_eq (h : Agrees l.off c s l.register) (moves : List (Move α))
    (hcount : (l.after moves).register.published < UInt64.size) :
    s.answers moves = l.run moves := by
  induction moves generalizing s l with
  | nil => rfl
  | cons m moves ih =>
    rw [Ledger.after] at hcount
    have hstep := ((l.step m).2.published_le_after moves).trans_lt hcount
    obtain ⟨hanswer, hnext⟩ := h.move m
    rw [answers, Ledger.run, hanswer hstep, ih hnext hcount]

/-- Readers of a slot do not wait in vain when an even number of writes was given up in it. -/
theorem off_eq_false_iff {slot : Nat} : l.off slot = false ↔ Even (l.abandoned slot) := by
  rw [Ledger.off, beq_eq_false_iff_ne, Nat.mod_two_ne_one, Nat.even_iff]

/-- What readers find. -/
theorem Agrees.found (h : Agrees l.off c s l.register) (hq : q ∈ s.handles) :
    (q.read? (s.contents q)).1 =
      if Even (l.abandoned l.slot) then some l.register.record else none := by
  obtain ⟨handle, hhandle⟩ := List.getElem?_of_mem hq
  rw [(h.follows q hq).contents_eq]
  by_cases heven : Even (l.abandoned l.slot)
  · rw [if_pos heven, h.read?_eq (off_eq_false_iff.2 heven) hhandle]
  · have hoff : l.off l.slot = true := by
      by_contra hclear
      exact heven (off_eq_false_iff.1 (Bool.not_eq_true _ ▸ hclear))
    rw [if_neg heven, read?_of_underway (h.underway_active.trans hoff)]

/-- Whatever is asked of a cell, and however many writes are given up in between: at any time the
count of the active slot is even, and every handle finds the record published last, exactly if an
even number of writes was given up in that slot, and if not, every handle finds the slot under
construction. All answers are those of the ledger as long as the number of records is one of 64
bits. Whoever asks for another handle is told the same at all times, and gets one if the system lets
segments of that name be opened and mapped. -/
theorem answers_eq_ledger {name : String} {type : RecordType} {first : List UInt8}
    {d d' : Directory} {c : LatestRecord} (h : create name type first d = (.ok c, d'))
    (htype : type.WellFormed) (hfirst : first.length = type.size) :
    ∃ entry, (d.Willing name → entry = .ok ()) ∧ ∀ moves : List (Move α),
      let s := (fresh c d').moved moves
      let l := (Ledger.fresh first entry).after moves
      ((s.contents c).load64 (sequenceAt (active (s.contents c))) % 2 = 0 ↔
          Even (l.abandoned l.slot)) ∧
        (∀ q ∈ s.handles, (q.read? (s.contents q)).1 =
          if Even (l.abandoned l.slot) then some l.register.record else none) ∧
        (l.register.published < UInt64.size →
          (fresh c d').answers moves = (Ledger.fresh first entry).run moves) := by
  refine ⟨_, entry_of_create h, fun moves => ?_⟩
  intro s l
  have hfresh : Agrees (Ledger.fresh first ((d'.attach name).map fun _ => ())).off c (fresh c d')
      (Ledger.fresh first ((d'.attach name).map fun _ => ())).register :=
    agrees_fresh h htype hfirst
  have hagrees : Agrees l.off c s l.register := hfresh.moved moves
  refine ⟨?_, fun q hq => hagrees.found hq, hfresh.answers_eq moves⟩
  rw [← underway_eq_false_iff, hagrees.underway_active]
  exact off_eq_false_iff

/-- The first write is given up, and a second handle writes a record. The count of its slot is odd
when it is published, so nobody finds it; and everybody finds the next one. -/
theorem answers_eq_ledger_abandoned : ∃ c d',
    create "state" ⟨4, 2⟩ [1, 2, 3, 4] Directory.empty = (.ok c, d') ∧
      (fresh c d').answers [.ask .attach, .ask (.beginWrite 0), .ask (.edit 1 [7, 8]), .abandon,
          .ask (.read 1), .ask (.write 1 [5, 5, 5, 5]), .ask (.read 1),
          .ask (.readWith 0 List.head?), .ask (.readUpdate 0 [9, 9, 9, 9]),
          .ask (.write 1 [6, 6, 6, 6]), .ask (.read 1)] =
        [.attached (.ok ()), .draft [1, 2, 3, 4], .draft [1, 7, 8, 4], .done,
          .record (some [1, 2, 3, 4]), .done, .record none, .visited none, .update none, .done,
          .record (some [6, 6, 6, 6])] := by
  obtain ⟨c, d', hcreate⟩ : ∃ c d',
      create "state" ⟨4, 2⟩ [1, 2, 3, 4] Directory.empty = (.ok c, d') :=
    ⟨_, _, create_eq_ok_iff.2
      ⟨Directory.grants_empty (by decide) (by decide) (by decide), rfl, rfl⟩⟩
  refine ⟨c, d', hcreate, ?_⟩
  have htype : RecordType.WellFormed ⟨4, 2⟩ := ⟨⟨1, rfl⟩, by decide, by decide⟩
  obtain ⟨entry, hentry, hmoves⟩ := answers_eq_ledger hcreate htype rfl
  obtain rfl := hentry (Directory.willing_empty _)
  rw [(hmoves _).2.2 (by decide)]
  rfl

end Sharing

end LatestRecord
end SharedExchange
