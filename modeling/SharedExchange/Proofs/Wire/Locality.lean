import Mathlib.Tactic
import SharedExchange.Proofs.Wire.Exceeding

/-! # Reading looks no further than it takes

A value that stands at the front of an input is read without regard to what stands behind it, and
an input that ends inside of it is reported as one that ends early, wherever it is cut
(`Value.decodeFront_local`). `Input.Local` says this of a way of reading: two inputs that start with
the bytes that were taken are read alike, and every proper part of these bytes ends early. One way
of reading after the other is local when each of them is (`Local.bind`).

Only a count looks further ahead, as it is believed only if the rest of the input could hold so many
entries. It is local together with the entries behind it, which take that much room
(`Local.counted`). -/

namespace SharedExchange

namespace Input

variable {α β γ δ : Type} {input rest : Input} {front front' : List UInt8} {n width : Nat}

/-- The front that was taken is what the two inputs differ by. -/
theorem Consumed.unique (h : Consumed input rest front) (h' : Consumed input rest front') :
    front = front' :=
  List.append_cancel_right (h.rest_eq.symm.trans h'.rest_eq)

/-- The input ended before all was read. -/
def EndedEarly (answer : Except Fault α) : Prop :=
  ∃ offset needed, answer = .error (.inputTruncated offset needed)

/-- What would have been read next does not matter. -/
theorem EndedEarly.bind {answer : Except Fault α} (h : EndedEarly answer)
    (next : α → Except Fault β) : EndedEarly (answer >>= next) := by
  obtain ⟨offset, needed, rfl⟩ := h
  exact ⟨offset, needed, rfl⟩

/-- What `read` takes off an input, `read'` takes off every input that starts with the same bytes,
with a related result; and to `read'`, every proper part of these bytes ends early. -/
structure Local (related : α → β → Prop) (read : Input → Except Fault (α × Input))
    (read' : Input → Except Fault (β × Input)) : Prop where
  taken : ∀ {input rest a}, read input = .ok (a, rest) → ∃ front, Consumed input rest front ∧
    (∀ back, ∃ b, read' ⟨front ++ back, input.offset⟩ = .ok (b, ⟨back, rest.offset⟩) ∧
      related a b) ∧
    ∀ cut < front.length, EndedEarly (read' ⟨front.take cut, input.offset⟩)

/-! ## One way of reading after the other -/

section

variable {related : α → β → Prop} {related' : γ → δ → Prop}
  {read : Input → Except Fault (α × Input)} {read' : Input → Except Fault (β × Input)}

/-- Reading nothing is local. -/
theorem Local.pure {a : α} {b : β} (h : related a b) :
    Local related (fun input => .ok (a, input)) (fun input => .ok (b, input)) := by
  refine ⟨fun {input rest a'} hread => ?_⟩
  cases hread
  exact ⟨[], Consumed.refl input, fun back => ⟨b, rfl, h⟩, fun cut hcut => by cases hcut⟩

/-- Steps that are local are so one after the other. -/
theorem Local.bind {next : α → Input → Except Fault (γ × Input)}
    {next' : β → Input → Except Fault (δ × Input)} (hread : Local related read read')
    (hnext : ∀ a b, related a b → Local related' (next a) (next' b)) :
    Local related' (fun input => read input >>= fun x => next x.1 x.2)
      (fun input => read' input >>= fun x => next' x.1 x.2) := by
  refine ⟨fun {input rest c} h => ?_⟩
  obtain ⟨⟨a, middle⟩, hfirst, hsecond⟩ := Value.exists_of_bind h
  obtain ⟨front, hfront, hsame, hcut⟩ := hread.taken hfirst
  -- what is taken second does not depend on which related result comes first
  obtain ⟨b₀, -, hrelated₀⟩ := hsame []
  obtain ⟨back, hback, -, -⟩ := (hnext a b₀ hrelated₀).taken hsecond
  refine ⟨front ++ back, hfront.trans hback, fun others => ?_, fun cut hlt => ?_⟩
  · obtain ⟨b, hb, hrelated⟩ := hsame (back ++ others)
    obtain ⟨back', hback', hsame', -⟩ := (hnext a b hrelated).taken hsecond
    obtain rfl := hback.unique hback'
    obtain ⟨d, hd, hrelated'⟩ := hsame' others
    refine ⟨d, ?_, hrelated'⟩
    rw [List.append_assoc, hb]
    exact hd
  · by_cases hshort : cut < front.length
    · -- the input ends inside of what is read first
      rw [List.take_append_of_le_length hshort.le]
      exact (hcut cut hshort).bind _
    · obtain ⟨b, hb, hrelated⟩ := hsame (back.take (cut - front.length))
      obtain ⟨back', hback', -, hcut'⟩ := (hnext a b hrelated).taken hsecond
      obtain rfl := hback.unique hback'
      rw [List.length_append] at hlt
      rw [List.take_append, List.take_of_length_le (Nat.not_lt.1 hshort), hb]
      exact hcut' _ (by omega)

/-- When the first result is the same, it is so for what is read next. -/
theorem Local.bind_eq {read read' : Input → Except Fault (α × Input)}
    {next : α → Input → Except Fault (γ × Input)} {next' : α → Input → Except Fault (δ × Input)}
    (hread : Local Eq read read') (hnext : ∀ a, Local related' (next a) (next' a)) :
    Local related' (fun input => read input >>= fun x => next x.1 x.2)
      (fun input => read' input >>= fun x => next' x.1 x.2) :=
  hread.bind fun a _ h => h ▸ hnext a

/-- What is made of a result when nothing more is read. -/
theorem Local.map (hread : Local related read read') (f : α → γ) (f' : β → δ)
    (h : ∀ a b, related a b → related' (f a) (f' b)) :
    Local related' (fun input => read input >>= fun x => .ok (f x.1, x.2))
      (fun input => read' input >>= fun x => .ok (f' x.1, x.2)) :=
  hread.bind fun a b hab => Local.pure (h a b hab)

/-- A result may be refused, and where that is reported may depend on the input. -/
theorem Local.accept {read read' : Input → Except Fault (α × Input)} (hread : Local Eq read read')
    (f : α → Option γ) (fault : Input → Fault) :
    Local Eq
      (fun input => read input >>= fun x =>
        (f x.1).elim (.error (fault input)) fun c => .ok (c, x.2))
      (fun input => read' input >>= fun x =>
        (f x.1).elim (.error (fault input)) fun c => .ok (c, x.2)) := by
  refine ⟨fun {input rest c} h => ?_⟩
  obtain ⟨⟨a, left⟩, hfirst, h⟩ := Value.exists_of_bind h
  obtain ⟨front, hfront, hsame, hcut⟩ := hread.taken hfirst
  cases haccepted : f a with
  | none =>
    simp only [haccepted] at h
    cases h
  | some c' =>
    simp only [haccepted] at h
    cases h
    refine ⟨front, hfront, fun back => ⟨c, ?_, rfl⟩, fun cut hlt => (hcut cut hlt).bind _⟩
    obtain ⟨_, hread', rfl⟩ := hsame back
    rw [hread']
    simp only [Bind.bind, Except.bind, haccepted, Option.elim_some]

/-- What fails whatever the input is takes nothing. -/
theorem Local.error (fault : Fault) : Local related (fun _ => .error fault) read' := by
  refine ⟨fun h => ?_⟩
  cases h

/-- What is checked before reading on is not a matter of the input. -/
theorem Local.guard (check : Except Fault Unit) (hread : Local related read read') :
    Local related (fun input => check >>= fun _ => read input)
      (fun input => check >>= fun _ => read' input) := by
  cases check with
  | error fault => exact Local.error fault
  | ok => exact hread

end

/-! ## Bytes, numbers and texts -/

/-- Taking bytes is local. -/
theorem local_take (n : Nat) :
    Local Eq (fun input => input.take n) (fun input => input.take n) := by
  refine ⟨fun {input rest bytes} h => ?_⟩
  obtain ⟨hconsumed, rfl⟩ := take_eq_ok h
  refine ⟨bytes, hconsumed, fun back => ⟨bytes, ?_, rfl⟩, fun cut hlt => ?_⟩
  · rw [take_append, hconsumed.offset_eq]
  · have hholds : ¬(⟨bytes.take cut, input.offset⟩ : Input).holds bytes.length = true := by
      rw [holds_iff, List.length_take]
      omega
    rw [take, if_neg hholds]
    exact ⟨_, _, rfl⟩

/-- Reading a number is local. -/
theorem local_number (width : Nat) :
    Local Eq (fun input => input.number width) (fun input => input.number width) :=
  (local_take width).map _ _ fun _ _ => congrArg LittleEndian.ofBytes

/-- A text is read in three steps. -/
theorem text_eq (input : Input) :
    input.text = input.number 4 >>= fun x => x.2.take x.1 >>= fun y =>
      (Utf8.decode? y.1).elim (.error (.textNotUtf8 x.2.offset)) fun s => .ok (s, y.2) := by
  rw [text]
  refine bind_congr fun x => bind_congr fun y => ?_
  obtain ⟨bytes, rest⟩ := y
  dsimp only
  cases Utf8.decode? bytes <;> rfl

/-- Reading a text is local. -/
theorem local_text : Local Eq Input.text Input.text := by
  rw [funext text_eq]
  exact (local_number 4).bind_eq fun length =>
    (local_take length).accept Utf8.decode? fun input => .textNotUtf8 input.offset

/-- Reading words is local. -/
theorem local_words (n : Nat) :
    Local Eq (fun input => input.words n) (fun input => input.words n) := by
  induction n with
  | zero => exact Local.pure rfl
  | succ n ih =>
    have hall := ih.bind_eq fun front =>
      (local_number 4).map _ _ fun _ _ => congrArg fun word => front.push (UInt32.ofNat word)
    exact hall

/-! ## Counts -/

/-- A count is the number that stands there, if it is believed. -/
theorem count_of_number (h : input.number 4 = .ok (n, rest)) :
    input.count width = if rest.holds (n * width) then .ok (n, rest)
      else .error (.inputTruncated input.offset (n * width)) := by
  rw [count, h]
  rfl

/-- A count that is believed is a number that was read. -/
theorem number_of_count (h : input.count width = .ok (n, rest)) :
    input.number 4 = .ok (n, rest) := by
  obtain ⟨⟨k, left⟩, hk, -⟩ := Value.exists_of_bind h
  rw [count_of_number hk] at h
  split at h
  · rw [hk, h]
  · cases h

/-- A count is local together with what is read behind it, when that takes as much room as the count
asks for. -/
theorem Local.counted (width : Nat) {related : γ → δ → Prop}
    {next : Nat → Input → Except Fault (γ × Input)}
    {next' : Nat → Input → Except Fault (δ × Input)}
    (hnext : ∀ n, Local related (next n) (next' n))
    (hroom : ∀ {n input rest c front}, next n input = .ok (c, rest) → Consumed input rest front →
      n * width ≤ front.length) :
    Local related (fun input => input.count width >>= fun x => next x.1 x.2)
      (fun input => input.count width >>= fun x => next' x.1 x.2) := by
  refine ⟨fun {input rest c} h => ?_⟩
  obtain ⟨⟨n, middle⟩, hcount, hsecond⟩ := Value.exists_of_bind h
  obtain ⟨front, hfront, hsame, hcut⟩ := (local_number 4).taken (number_of_count hcount)
  obtain ⟨back, hback, hsame', hcut'⟩ := (hnext n).taken hsecond
  have henough := hroom hsecond hback
  refine ⟨front ++ back, hfront.trans hback, fun others => ?_, fun cut hlt => ?_⟩
  · obtain ⟨_, hn, rfl⟩ := hsame (back ++ others)
    obtain ⟨d, hd, hrelated⟩ := hsame' others
    have hholds : (⟨back ++ others, middle.offset⟩ : Input).holds (n * width) = true := by
      rw [holds_iff, List.length_append]
      exact henough.trans (Nat.le_add_right ..)
    refine ⟨d, ?_, hrelated⟩
    rw [List.append_assoc, count_of_number hn, if_pos hholds]
    exact hd
  · by_cases hshort : cut < front.length
    · rw [List.take_append_of_le_length hshort.le, count]
      exact ((hcut cut hshort).bind _).bind _
    · obtain ⟨_, hn, rfl⟩ := hsame (back.take (cut - front.length))
      rw [List.length_append] at hlt
      rw [List.take_append, List.take_of_length_le (Nat.not_lt.1 hshort), count_of_number hn]
      split
      · exact hcut' _ (by omega)
      · -- the count is not believed any more, as what it counts is cut
        exact EndedEarly.bind ⟨_, _, rfl⟩ _

/-! ## Values -/

section

variable {related : Value → Value → Prop} {read read' : Input → Except Fault (Value × Input)}

/-- Items that are read one after the other. -/
theorem Local.items (hread : Local (fun v w => w.content = v.content) read read') (n : Nat) :
    Local (fun vs ws => Value.itemContents ws = Value.itemContents vs) (Input.items read n)
      (Input.items read' n) := by
  induction n with
  | zero => exact Local.pure rfl
  | succ n ih =>
    refine hread.bind fun v w hv => ih.bind fun vs ws hvs => Local.pure ?_
    rw [Value.itemContents, Value.itemContents, hv, hvs]

/-- Entries that are read one after the other. -/
theorem Local.entries (hread : Local (fun v w => w.content = v.content) read read') (n : Nat)
    (last : Option String) :
    Local (fun vs ws => Value.entryContents ws = Value.entryContents vs)
      (Input.entries read n last) (Input.entries read' n last) := by
  induction n generalizing last with
  | zero => exact Local.pure rfl
  | succ n ih =>
    have hbehind : ∀ (key : String) (v w : Value), w.content = v.content →
        Local (fun vs ws => Value.entryContents ws = Value.entryContents vs)
          (fun input => Input.entries read n (some key) input >>= fun y =>
            .ok ((key, v) :: y.1, y.2))
          (fun input => Input.entries read' n (some key) input >>= fun y =>
            .ok ((key, w) :: y.1, y.2)) := by
      intro key v w hv
      refine (ih (some key)).bind fun vs ws hvs => Local.pure ?_
      rw [Value.entryContents, Value.entryContents, hv, hvs]
    have hall := local_text.bind_eq fun key =>
      (hread.bind (hbehind key)).guard (checkKey last key)
    exact hall

/-- Reading a payload is local if reading what is inside it is. -/
theorem Local.payload {levels : Nat} (hfaithful : Value.Faithful levels read)
    (hread : Local (fun v w => w.content = v.content) read read') (here here' : NodeId)
    (byte : Nat) :
    Local (fun v w => w.content = v.content) (fun input => payload read here byte input)
      (fun input => payload read' here' byte input) := by
  -- a scalar is made of what was read
  have hscalar : ∀ {σ : Type} {part part' : Input → Except Fault (σ × Input)} (make : σ → Value),
      Local Eq part part' → Local (fun v w => w.content = v.content)
        (fun input => part input >>= fun x => .ok (make x.1, x.2))
        (fun input => part' input >>= fun x => .ok (make x.1, x.2)) :=
    fun make hpart => hpart.map make make fun _ _ h => h ▸ rfl
  cases hkind : Kind.ofByte? (UInt8.ofNat byte) with
  | none =>
    simp only [Input.payload, hkind]
    exact Local.error _
  | some kind =>
    cases kind with
    | null =>
      simp only [Input.payload, hkind]
      exact Local.pure rfl
    | bool =>
      simp only [Input.payload, hkind]
      exact hscalar (fun n => .bool (n != 0)) (local_number 1)
    | integer kind =>
      simp only [Input.payload, hkind]
      exact hscalar (fun n => .integer kind (BitVec.ofNat _ n)) (local_number kind.bytes)
    | float32 =>
      simp only [Input.payload, hkind]
      exact hscalar (fun n => .float32 (UInt32.ofNat n)) (local_number 4)
    | float64 =>
      simp only [Input.payload, hkind]
      exact hscalar (fun n => .float64 (UInt64.ofNat n)) (local_number 8)
    | floats shape =>
      simp only [Input.payload, hkind]
      exact hscalar (.floats shape) (local_words shape.size)
    | text =>
      simp only [Input.payload, hkind]
      refine local_text.map (Value.text here) (Value.text here') fun s t h => ?_
      rw [Value.content, Value.content, h]
    | seq kind =>
      simp only [Input.payload, hkind]
      refine Local.counted 1 (fun n => (hread.items n).map (Value.seq kind here)
        (Value.seq kind here') fun vs ws h => ?_) fun h hfront => ?_
      · rw [Value.content, Value.content, h]
      · obtain ⟨⟨vs, left⟩, hitems, hrest⟩ := Value.exists_of_bind h
        cases hrest
        obtain ⟨rfl, -, -, -, front, hconsumed, hspells⟩ := hfaithful.items hitems
        rw [hfront.unique hconsumed, hspells.length_wire, Nat.mul_one]
        exact Value.length_le_wireItems vs
    | dict kind =>
      simp only [Input.payload, hkind]
      refine Local.counted 5 (fun n => (hread.entries n none).map (Value.dict kind here)
        (Value.dict kind here') fun vs ws h => ?_) fun h hfront => ?_
      · rw [Value.content, Value.content, h]
      · obtain ⟨⟨vs, left⟩, hentries, hrest⟩ := Value.exists_of_bind h
        cases hrest
        obtain ⟨rfl, -, -, -, front, hconsumed, hspells⟩ := hfaithful.entries hentries
        rw [hfront.unique hconsumed, hspells.length_wire]
        exact Value.length_le_wireEntries vs

/-- A value that is read at one node and at another differs in its nodes alone. -/
theorem local_value (node node' : NodeId) (levels : Nat) :
    Local (fun v w => w.content = v.content) (Input.value node levels)
      (Input.value node' levels) := by
  induction levels with
  | zero => exact Local.error _
  | succ levels ih =>
    have hbehind := fun here here' => (local_number 1).bind_eq
      (ih.payload (Value.faithful_value node levels) here here')
    -- which node the value becomes is not a matter of what is read
    refine ⟨fun {input rest v} h => ?_⟩
    simp only [value_succ] at h ⊢
    exact (hbehind (node + input.offset) (node' + input.offset)).taken h

end

end Input

namespace Value

open Input

variable {node : NodeId} {bytes : List UInt8} {v : Value} {k : Nat}

/-- What is read off the front of some bytes depends on the bytes that it takes and on no others.
These bytes by themselves are the value, with anything behind them they are not, and no front of
them that is shorter is a value or starts with one. -/
theorem decodeFront_local (h : decodeFront node bytes = .ok (v, k)) :
    (∀ node' bytes', bytes'.take k = bytes.take k →
        ∃ w, decodeFront node' bytes' = .ok (w, k) ∧ w.content = v.content) ∧
      (∀ node', ∃ w, decode node' (bytes.take k) = .ok w ∧ w.content = v.content) ∧
      (∀ node' back, back ≠ [] →
        decode node' (bytes.take k ++ back) = .error (.bytesLeftOver back.length)) ∧
      ∀ node', ∀ j < k, EndedEarly (decode node' (bytes.take j)) ∧
        EndedEarly (decodeFront node' (bytes.take j)) := by
  rw [decodeFront] at h
  obtain ⟨⟨w, rest⟩, hvalue, h⟩ := exists_of_bind h
  cases h
  obtain ⟨front, hfront, -⟩ := (local_value node node _).taken hvalue
  have hk : rest.offset = front.length := by rw [hfront.offset_eq, Nat.zero_add]
  have htake : bytes.take rest.offset = front := by
    rw [hk]
    exact (congrArg (List.take front.length) hfront.rest_eq).trans List.take_left
  -- the front that was taken is the same at every node
  have hread : ∀ node' back, ∃ w, Input.value node' (nestingLimit + 1) ⟨front ++ back, 0⟩ =
      .ok (w, ⟨back, rest.offset⟩) ∧ w.content = v.content := by
    intro node' back
    obtain ⟨front', hfront', hsame, -⟩ := (local_value node node' _).taken hvalue
    obtain rfl := hfront.unique hfront'
    exact hsame back
  rw [htake]
  refine ⟨fun node' bytes' hbytes' => ?_, fun node' => ?_, fun node' back hback => ?_,
    fun node' j hj => ?_⟩
  · obtain ⟨w, hw, hcontent⟩ := hread node' (bytes'.drop rest.offset)
    rw [← hbytes', List.take_append_drop] at hw
    refine ⟨w, ?_, hcontent⟩
    rw [decodeFront, hw]
    rfl
  · obtain ⟨w, hw, hcontent⟩ := hread node' []
    rw [List.append_nil] at hw
    refine ⟨w, ?_, hcontent⟩
    simp only [decode, decodeFront, hw, bind, Except.bind, pure, Except.pure, hk, lt_irrefl,
      if_false]
  · obtain ⟨w, hw, -⟩ := hread node' back
    exact decode_leftOver hw hback
  · -- a shorter front of the bytes is a front of those taken, and is cut off
    obtain ⟨front', hfront', -, hcut⟩ := (local_value node node' _).taken hvalue
    obtain rfl := hfront.unique hfront'
    have hshorter : bytes.take j = front.take j := by
      rw [← htake, List.take_take, Nat.min_eq_left hj.le]
    rw [hshorter]
    have hfails : EndedEarly (decodeFront node' (front.take j)) :=
      (hcut j (hk ▸ hj)).bind _
    exact ⟨hfails.bind _, hfails⟩

/-- A boolean inside a container, with bytes behind it that are not read: cut inside of the key, the
container ends early. -/
theorem decodeFront_local_nested :
    let bytes : List UInt8 := [0x06, 1, 0, 0, 0, 1, 0, 0, 0, 0x61, 0x04, 7, 9, 9]
    decode 3 bytes = .error (.bytesLeftOver 2) ∧
      (∃ w, decodeFront 8 (bytes.take 12) = .ok (w, 12) ∧
        w.content = .dict .map 0 [("a", .bool true)]) ∧
      EndedEarly (decodeFront 8 (bytes.take 9)) := by
  have h : decodeFront 3 [0x06, 1, 0, 0, 0, 1, 0, 0, 0, 0x61, 0x04, 7, 9, 9] =
      .ok (.dict .map 3 [("a", .bool true)], 12) := by
    rfl
  obtain ⟨hsame, -, hover, hcut⟩ := decodeFront_local h
  exact ⟨hover 3 [9, 9] (by decide), hsame 8 _ rfl, (hcut 8 9 (by decide)).2⟩

end Value
end SharedExchange
