import SharedExchange.Proofs.Arena.Sharing

/-! # Comparing values that share nodes

Equality takes a node to be equal to itself without looking inside, and does so at every depth. So a
container that holds something that is not a number equals itself and does not equal a copy.

What makes this a sensible relation all the same is that a node is one value wherever it is seen
(`Compatible`): a step of a comparison that is answered by identity compares a value with itself.
Hence

* where one side holds only numbers, the shortcut decides nothing that looking inside would not
  (`equal_eq_equalContent`), since exactly such values have the same content as themselves
  (`equalContent_self`);
* whatever they hold, values of equal contents are equal (`equal_of_equalContent`), and equality is
  symmetric (`equal_comm`) and transitive (`equal_trans`).

Floats are compared by their patterns, and are equal when they stand for the same number
(`Binary.equal_iff_number?`). -/

namespace SharedExchange

/-! ## Floats -/

namespace Binary

variable {f : Binary} {a b c : Nat}

/-- Patterns are equal when neither is beyond infinity and they are the same or both zero. -/
theorem equal_iff : f.equal a b = true ↔ f.isNaN a = false ∧ f.isNaN b = false ∧
    (a = b ∨ f.magnitude a = 0 ∧ f.magnitude b = 0) := by
  simp only [equal, Bool.and_eq_true, Bool.or_eq_true, beq_iff_eq, Bool.not_eq_true', and_assoc]

/-- Equality of patterns is symmetric. -/
theorem equal_comm (a b : Nat) : f.equal a b = f.equal b a := by
  rw [Bool.eq_iff_iff, equal_iff, equal_iff]
  constructor <;> rintro ⟨ha, hb, heq⟩
  · exact ⟨hb, ha, heq.imp Eq.symm And.symm⟩
  · exact ⟨hb, ha, heq.imp Eq.symm And.symm⟩

/-- What is not a number is what does not equal itself. -/
@[simp] theorem equal_self (a : Nat) : f.equal a a = !f.isNaN a := by
  simp [equal]

/-- Equality of patterns is transitive. -/
theorem equal_trans (h : f.equal a b = true) (h' : f.equal b c = true) :
    f.equal a c = true := by
  rw [equal_iff] at h h' ⊢
  obtain ⟨ha, -, hab⟩ := h
  obtain ⟨-, hc, hbc⟩ := h'
  refine ⟨ha, hc, ?_⟩
  -- equal patterns may be rewritten, and the two zeros are all that is equal besides
  rcases hab with rfl | ⟨hza, hzb⟩
  · exact hbc
  · rcases hbc with rfl | ⟨-, hzc⟩
    · exact .inr ⟨hza, hzb⟩
    · exact .inr ⟨hza, hzc⟩

/-! ## Floats as numbers -/

/-- A number that a pattern stands for. Finite ones are counted in units of the least positive
number of the format. -/
inductive Number
  | finite (units : Int)
  | infinite (negative : Bool)

/-- How many units a pattern without its sign stands for. The fraction field extends a one, except
below the normal range. -/
def units (f : Binary) (exponent fraction : Nat) : Nat :=
  if exponent = 0 then fraction else (2 ^ f.fractionBits + fraction) * 2 ^ (exponent - 1)

/-- Whether the sign of a pattern is set. -/
def negative (f : Binary) (bits : Nat) : Bool := 2 ^ (f.exponentBits + f.fractionBits) ≤ bits

/-- The number that a pattern stands for, if it is one. -/
def number? (f : Binary) (bits : Nat) : Option Number :=
  if f.exponent bits = 2 ^ f.exponentBits - 1 then
    if f.fraction bits = 0 then some (.infinite (f.negative bits)) else none
  else
    let units := f.units (f.exponent bits) (f.fraction bits)
    some (.finite (if f.negative bits then -units else units))

/-- A pattern without its sign is made up of the two other fields. -/
theorem magnitude_eq (f : Binary) (bits : Nat) :
    f.magnitude bits = f.exponent bits * 2 ^ f.fractionBits + f.fraction bits := by
  have hfraction : f.fraction bits = f.magnitude bits % 2 ^ f.fractionBits := by
    rw [fraction, magnitude, Nat.shiftLeft_eq, Nat.shiftLeft_eq, one_mul, one_mul,
      Nat.mod_mod_of_dvd _ (pow_dvd_pow 2 (Nat.le_add_left ..))]
  rw [exponent, Nat.shiftRight_eq_div_pow, hfraction, Nat.div_add_mod']

/-- The fraction field has its width. -/
theorem fraction_lt (f : Binary) (bits : Nat) : f.fraction bits < 2 ^ f.fractionBits := by
  rw [fraction, Nat.shiftLeft_eq, one_mul]
  exact Nat.mod_lt _ (Nat.two_pow_pos _)

/-- The exponent field has its width. -/
theorem exponent_lt (f : Binary) (bits : Nat) : f.exponent bits < 2 ^ f.exponentBits := by
  rw [exponent, magnitude, Nat.shiftRight_eq_div_pow, Nat.shiftLeft_eq, one_mul,
    Nat.div_lt_iff_lt_mul (Nat.two_pow_pos _), ← pow_add]
  exact Nat.mod_lt _ (Nat.two_pow_pos _)

/-- Beyond infinity the exponent field is full and the fraction field is not empty. -/
theorem isNaN_iff (f : Binary) (bits : Nat) : f.isNaN bits = true ↔
    f.exponent bits = 2 ^ f.exponentBits - 1 ∧ f.fraction bits ≠ 0 := by
  have hexponent := f.exponent_lt bits
  have hfraction := f.fraction_lt bits
  rw [isNaN, infinity, decide_eq_true_iff, magnitude_eq, Nat.shiftLeft_eq, Nat.shiftLeft_eq,
    one_mul]
  constructor
  · intro h
    have hfull : f.exponent bits = 2 ^ f.exponentBits - 1 := by
      by_contra hne
      -- a smaller exponent field leaves the fraction field below the next multiple
      have hle : (f.exponent bits + 1) * 2 ^ f.fractionBits ≤
          (2 ^ f.exponentBits - 1) * 2 ^ f.fractionBits := Nat.mul_le_mul_right _ (by omega)
      rw [Nat.add_mul, one_mul] at hle
      omega
    rw [hfull] at h
    exact ⟨hfull, by omega⟩
  · rintro ⟨hfull, hne⟩
    rw [hfull]
    omega

/-- What is a number is what is not beyond infinity. -/
theorem isSome_number?_iff (f : Binary) (bits : Nat) :
    (f.number? bits).isSome ↔ f.isNaN bits = false := by
  rw [← Bool.not_eq_true, isNaN_iff, number?]
  by_cases hfull : f.exponent bits = 2 ^ f.exponentBits - 1
  · by_cases hzero : f.fraction bits = 0 <;> simp [hfull, hzero]
  · simp [hfull]

/-- The infinite numbers are those with a full exponent field. -/
theorem number?_eq_infinite_iff {bits : Nat} {sign : Bool} :
    f.number? bits = some (.infinite sign) ↔ f.exponent bits = 2 ^ f.exponentBits - 1 ∧
      f.fraction bits = 0 ∧ f.negative bits = sign := by
  rw [number?]
  split
  · next hfull => split <;> simp_all
  · next hnot => simp [hnot]

/-- The finite numbers are the others. -/
theorem number?_eq_finite_iff {bits : Nat} {n : Int} :
    f.number? bits = some (.finite n) ↔ f.exponent bits ≠ 2 ^ f.exponentBits - 1 ∧
      (if f.negative bits then -(f.units (f.exponent bits) (f.fraction bits) : Int)
        else f.units (f.exponent bits) (f.fraction bits)) = n := by
  rw [number?]
  split
  · next hfull => split <;> simp_all
  · next hnot => simp [hnot]

/-- Patterns of the width of the format are the same if their signs and their other fields are. -/
theorem eq_of_negative_eq (ha : a < 2 ^ (f.exponentBits + f.fractionBits + 1))
    (hb : b < 2 ^ (f.exponentBits + f.fractionBits + 1)) (hsign : f.negative a = f.negative b)
    (hmagnitude : f.magnitude a = f.magnitude b) : a = b := by
  rw [negative, negative, decide_eq_decide] at hsign
  rw [magnitude, magnitude, Nat.shiftLeft_eq, one_mul] at hmagnitude
  rw [pow_succ] at ha hb
  generalize 2 ^ (f.exponentBits + f.fractionBits) = half at *
  by_cases hle : half ≤ a
  · rw [Nat.mod_eq_sub_mod hle, Nat.mod_eq_sub_mod (hsign.1 hle), Nat.mod_eq_of_lt (by omega),
      Nat.mod_eq_of_lt (by omega)] at hmagnitude
    have := hsign.1 hle
    omega
  · rwa [Nat.mod_eq_of_lt (by omega), Nat.mod_eq_of_lt (by omega)] at hmagnitude

section

variable {e e' x x' : Nat}

/-- A larger exponent field stands for a larger number. -/
theorem units_lt_of_lt (hx : x < 2 ^ f.fractionBits) (h : e < e') :
    f.units e x < f.units e' x' := by
  have hlow : f.units e x < 2 ^ f.fractionBits * 2 ^ e := by
    rw [units]
    split
    · next hzero => rwa [hzero, pow_zero, mul_one]
    · next hne =>
      obtain ⟨k, rfl⟩ := Nat.exists_eq_succ_of_ne_zero hne
      rw [Nat.succ_sub_one, Nat.succ_eq_add_one, pow_succ, ← mul_assoc, mul_right_comm]
      exact Nat.mul_lt_mul_of_pos_right (by omega) (Nat.two_pow_pos _)
  have hhigh : 2 ^ f.fractionBits * 2 ^ (e' - 1) ≤ f.units e' x' := by
    rw [units, if_neg (by omega)]
    exact Nat.mul_le_mul_right _ (Nat.le_add_right ..)
  have hpow : 2 ^ f.fractionBits * 2 ^ e ≤ 2 ^ f.fractionBits * 2 ^ (e' - 1) :=
    Nat.mul_le_mul_left _ (Nat.pow_le_pow_right (by decide) (by omega))
  exact hlow.trans_le (hpow.trans hhigh)

/-- No two pairs of fields stand for the same number. -/
theorem units_inj (hx : x < 2 ^ f.fractionBits) (hx' : x' < 2 ^ f.fractionBits)
    (h : f.units e x = f.units e' x') : e = e' ∧ x = x' := by
  rcases Nat.lt_trichotomy e e' with hlt | rfl | hlt
  · exact absurd h (units_lt_of_lt hx hlt).ne
  · refine ⟨rfl, ?_⟩
    rw [units, units] at h
    split at h
    · exact h
    · exact Nat.add_left_cancel (Nat.mul_right_cancel (Nat.two_pow_pos _) h)
  · exact absurd h.symm (units_lt_of_lt hx' hlt).ne

end

/-- Only zero is nothing. -/
theorem units_eq_zero_iff (f : Binary) (bits : Nat) :
    f.units (f.exponent bits) (f.fraction bits) = 0 ↔ f.magnitude bits = 0 := by
  have hpos := Nat.two_pow_pos f.fractionBits
  rw [magnitude_eq]
  constructor
  · intro h
    obtain ⟨hexponent, hfraction⟩ :=
      units_inj (f.fraction_lt bits) hpos (show _ = f.units 0 0 from h)
    rw [hexponent, hfraction, zero_mul]
  · intro h
    obtain ⟨hexponent, hfraction⟩ := Nat.add_eq_zero_iff.1 h
    rw [(Nat.mul_eq_zero.1 hexponent).resolve_right hpos.ne', hfraction]
    rfl

/-- Patterns of the width of the format are equal exactly when they stand for the same number. -/
theorem equal_iff_number? (hbits : 0 < f.exponentBits)
    (ha : a < 2 ^ (f.exponentBits + f.fractionBits + 1))
    (hb : b < 2 ^ (f.exponentBits + f.fractionBits + 1)) :
    f.equal a b = true ↔ ∃ n, f.number? a = some n ∧ f.number? b = some n := by
  rw [equal_iff]
  constructor
  · rintro ⟨hnumber, -, rfl | ⟨hzero, hzero'⟩⟩
    · obtain ⟨n, hn⟩ := Option.isSome_iff_exists.1 ((f.isSome_number?_iff a).2 hnumber)
      exact ⟨n, hn, hn⟩
    · -- a zero has no exponent, so it is a number whatever the format is
      have hnothing : ∀ bits, f.magnitude bits = 0 → f.number? bits = some (.finite 0) := by
        intro bits h
        have hunits := (f.units_eq_zero_iff bits).2 h
        rw [magnitude_eq] at h
        have hexponent : f.exponent bits = 0 :=
          (Nat.mul_eq_zero.1 (Nat.add_eq_zero_iff.1 h).1).resolve_right (Nat.two_pow_pos _).ne'
        have hfull : 1 < 2 ^ f.exponentBits := Nat.one_lt_two_pow hbits.ne'
        rw [number?, if_neg (by omega)]
        simp [hunits]
      exact ⟨_, hnothing a hzero, hnothing b hzero'⟩
  · rintro ⟨n, hna, hnb⟩
    refine ⟨(f.isSome_number?_iff a).1 (by rw [hna]; rfl),
      (f.isSome_number?_iff b).1 (by rw [hnb]; rfl), ?_⟩
    -- a pattern is its sign, its exponent and its fraction
    have hsame : f.negative a = f.negative b → f.exponent a = f.exponent b →
        f.fraction a = f.fraction b → a = b := fun hsign hexponent hfraction =>
      eq_of_negative_eq ha hb hsign (by rw [magnitude_eq, magnitude_eq, hexponent, hfraction])
    cases n with
    | infinite sign =>
      obtain ⟨hfull, hzero, hsign⟩ := number?_eq_infinite_iff.1 hna
      obtain ⟨hfull', hzero', hsign'⟩ := number?_eq_infinite_iff.1 hnb
      exact .inl (hsame (hsign.trans hsign'.symm) (hfull.trans hfull'.symm)
        (hzero.trans hzero'.symm))
    | finite n =>
      obtain ⟨-, hunits⟩ := number?_eq_finite_iff.1 hna
      obtain ⟨-, hunits'⟩ := number?_eq_finite_iff.1 hnb
      by_cases hsign : f.negative a = f.negative b
      · have heq : f.units (f.exponent a) (f.fraction a) =
            f.units (f.exponent b) (f.fraction b) := by
          rw [← hunits', hsign] at hunits
          split at hunits <;> omega
        obtain ⟨hexponent, hfraction⟩ := units_inj (f.fraction_lt a) (f.fraction_lt b) heq
        exact .inl (hsame hsign hexponent hfraction)
      · -- a number and its opposite are the same only if both are zero
        rw [← f.units_eq_zero_iff, ← f.units_eq_zero_iff]
        rw [Bool.eq_not_of_ne hsign, ← hunits'] at hunits
        cases hnegative : f.negative b with
        | false =>
          simp only [hnegative, Bool.not_false, if_true, Bool.false_eq_true, if_false] at hunits
          omega
        | true =>
          simp only [hnegative, Bool.not_true, if_true, Bool.false_eq_true, if_false] at hunits
          omega

end Binary

namespace Value

/-! ## Runs of floats -/

/-- Equality of runs of floats, component by component. -/
abbrev equalFloats (xs ys : List UInt32) : Bool :=
  (xs.zip ys).all fun (x, y) => Binary.single.equal x.toNat y.toNat

/-- Equality of runs of floats is symmetric. -/
theorem equalFloats_comm (xs ys : List UInt32) : equalFloats xs ys = equalFloats ys xs := by
  induction xs generalizing ys with
  | nil => rw [equalFloats, List.zip_nil_left, equalFloats, List.zip_nil_right]
  | cons x xs ih =>
    cases ys with
    | nil => rfl
    | cons y ys =>
      simp only [equalFloats, List.zip_cons_cons, List.all_cons] at ih ⊢
      rw [ih ys, Binary.equal_comm]

/-- A run of floats equals itself unless one of them is not a number. -/
theorem equalFloats_self (xs : List UInt32) :
    equalFloats xs xs = !xs.any fun x => Binary.single.isNaN x.toNat := by
  induction xs with
  | nil => rfl
  | cons x xs ih =>
    simp only [equalFloats, List.zip_cons_cons, List.all_cons, List.any_cons, Bool.not_or] at ih ⊢
    rw [ih, Binary.equal_self]

/-- The middle run must not be the shortest: what has no partner is not compared. -/
theorem equalFloats_trans {xs ys zs : List UInt32} (hlen : xs.length ≤ ys.length)
    (h : equalFloats xs ys = true) (h' : equalFloats ys zs = true) :
    equalFloats xs zs = true := by
  induction xs generalizing ys zs with
  | nil => rfl
  | cons x xs ih =>
    cases ys with
    | nil => exact absurd hlen (Nat.not_succ_le_zero _)
    | cons y ys =>
      cases zs with
      | nil => rfl
      | cons z zs =>
        simp only [equalFloats, List.zip_cons_cons, List.all_cons, Bool.and_eq_true] at ih h h' ⊢
        exact ⟨Binary.equal_trans h.1 h'.1, ih (Nat.le_of_succ_le_succ hlen) h.2 h'.2⟩

/-! ## Scalars -/

/-- Whether a scalar is, or has a component that is, not a number. -/
def isNaN : Value → Bool
  | float32 bits => Binary.single.isNaN bits.toNat
  | float64 bits => Binary.double.isNaN bits.toNat
  | floats _ components => components.toList.any fun bits => Binary.single.isNaN bits.toNat
  | _ => false

/-- Equality of scalars is symmetric. -/
theorem equalScalar_comm (a b : Value) : a.equalScalar b = b.equalScalar a := by
  cases a <;> cases b <;> try rfl
  case bool.bool b b' => exact Bool.beq_comm
  case integer.integer kind bits kind' bits' =>
    rw [equalScalar, equalScalar, Bool.beq_comm, Bool.beq_comm (a := bits.toNat)]
  case float32.float32 => exact Binary.equal_comm _ _
  case float64.float64 => exact Binary.equal_comm _ _
  case floats.floats shape components shape' components' =>
    rw [equalScalar, equalScalar, Bool.beq_comm]
    exact congrArg _ (equalFloats_comm _ _)

/-- Equality of scalars is transitive. -/
theorem equalScalar_trans {a b c : Value} (h : a.equalScalar b = true)
    (h' : b.equalScalar c = true) : a.equalScalar c = true := by
  cases a <;> cases b <;> try exact (Bool.false_ne_true h).elim
  case null.null => exact h'
  all_goals cases c <;> try exact (Bool.false_ne_true h').elim
  case bool.bool.bool => rwa [beq_iff_eq.1 h]
  case integer.integer.integer =>
    simp only [equalScalar, Bool.and_eq_true, beq_iff_eq] at h h' ⊢
    exact ⟨h.1.trans h'.1, h.2.trans h'.2⟩
  case float32.float32.float32 => exact Binary.equal_trans h h'
  case float64.float64.float64 => exact Binary.equal_trans h h'
  case floats.floats.floats =>
    simp only [equalScalar, Bool.and_eq_true, beq_iff_eq] at h h' ⊢
    obtain ⟨rfl, hab⟩ := h
    obtain ⟨rfl, hbc⟩ := h'
    exact ⟨rfl, equalFloats_trans (by simp) hab hbc⟩

/-- What equals a scalar is a scalar. -/
theorem node?_of_equalScalar {a b : Value} (h : a.equalScalar b = true) : b.node? = none := by
  cases b <;> first | rfl | skip
  all_goals cases a <;> exact (Bool.false_ne_true h).elim

/-- A scalar equals itself unless it holds something that is not a number; nodes are no scalars. -/
theorem equalScalar_self {v : Value} (h : v.node? = none) : v.equalScalar v = !v.isNaN := by
  cases v with
  | null => rfl
  | bool b => simp [equalScalar, isNaN]
  | integer kind bits => simp [equalScalar, isNaN]
  | float32 bits => exact Binary.equal_self _
  | float64 bits => exact Binary.equal_self _
  | floats shape components =>
    rw [equalScalar, beq_self_eq_true, Bool.true_and]
    exact equalFloats_self _
  | text node s => cases h
  | seq kind node items => cases h
  | dict kind node entries => cases h

/-! ## One value for each node -/

/-- A node seen under one kind on both sides is the same value on both. -/
def OneValueEach (ps qs : List Value) : Prop := ∀ p ∈ ps, ∀ q ∈ qs, p.sameNode q = true → p = q

/-- Nodes that are one value each are so in smaller collections. -/
theorem OneValueEach.mono {ps qs ps' qs' : List Value} (h : OneValueEach ps qs) (hp : ps' ⊆ ps)
    (hq : qs' ⊆ qs) : OneValueEach ps' qs' :=
  fun p hp' q hq' => h p (hp hp') q (hq hq')

/-- A node seen under one kind inside both values is the same value in both. -/
def Compatible (a b : Value) : Prop := OneValueEach a.parts b.parts

/-- Values that are the same node are the same value. -/
theorem Compatible.eq_of_sameNode {a b : Value} (h : a.Compatible b) (hnode : a.sameNode b = true) :
    a = b :=
  h a (self_mem_parts a) b (self_mem_parts b) hnode

/-- To be the same node is symmetric. -/
theorem sameNode_comm (a b : Value) : a.sameNode b = b.sameNode a := by
  rw [Bool.eq_iff_iff, sameNode_iff, sameNode_iff]
  constructor <;> rintro ⟨hsome, heq⟩
  · exact ⟨heq ▸ hsome, heq.symm⟩
  · exact ⟨heq ▸ hsome, heq.symm⟩

/-- Compatibility is symmetric. -/
theorem Compatible.symm {a b : Value} (h : a.Compatible b) : b.Compatible a :=
  fun p hp q hq hnode => (h q hq p hp (sameNode_comm p q ▸ hnode)).symm

/-- In compatible sequences the nodes of the items are one value each. -/
theorem OneValueEach.items {kind kind' : SeqKind} {node node' : NodeId} {items items' : List Value}
    (h : (seq kind node items).Compatible (seq kind' node' items')) :
    OneValueEach (itemParts items) (itemParts items') :=
  h.mono (List.subset_cons_self _ _) (List.subset_cons_self _ _)

/-- In compatible keyed containers the nodes of the entries are one value each. -/
theorem OneValueEach.entries {kind kind' : DictKind} {node node' : NodeId}
    {entries entries' : List (String × Value)}
    (h : (dict kind node entries).Compatible (dict kind' node' entries')) :
    OneValueEach (entryParts entries) (entryParts entries') :=
  h.mono (List.subset_cons_self _ _) (List.subset_cons_self _ _)

/-- Among the parts of two runs of children are those of the first two children, and those of the
rests. -/
theorem OneValueEach.of_append {ps qs ps' qs' : List Value}
    (h : OneValueEach (ps ++ ps') (qs ++ qs')) : OneValueEach ps qs ∧ OneValueEach ps' qs' :=
  ⟨h.mono (List.subset_append_left _ _) (List.subset_append_left _ _),
    h.mono (List.subset_append_right _ _) (List.subset_append_right _ _)⟩

/-! ## Identity first, then contents -/

/-- Equality of contents at the root; below it, nodes may again be equal by identity. -/
def equalBelow : Value → Value → Bool
  | text _ s, text _ s' => s == s'
  | seq kind _ items, seq kind' _ items' => kind == kind' && equalItems items items'
  | dict kind _ entries, dict kind' _ entries' => kind == kind' && equalEntries entries entries'
  | v, v' => v.equalScalar v'

/-- Values are equal when they are one node, or else when they look equal from the root down. -/
theorem equal_eq (a b : Value) : a.equal b = (a.sameNode b || a.equalBelow b) := by
  cases a <;> cases b <;>
    first
    | rfl
    | simp only [equal, sameNode, equalBelow, Bool.and_or_distrib_left]

/-- What looks equal from the root down is equal. -/
theorem equal_of_equalBelow {a b : Value} (h : a.equalBelow b = true) : a.equal b = true := by
  rw [equal_eq, h, Bool.or_true]

/-- Only a text looks equal to a text. -/
theorem exists_of_equalBelow_text {node : NodeId} {s : String} {b : Value}
    (h : (text node s).equalBelow b = true) : ∃ node', b = text node' s := by
  cases b <;> try exact (Bool.false_ne_true h).elim
  case text node' s' => exact ⟨node', by rw [beq_iff_eq.1 h]⟩

/-- Only a sequence of that kind looks equal to a sequence. -/
theorem exists_of_equalBelow_seq {kind : SeqKind} {node : NodeId} {items : List Value} {b : Value}
    (h : (seq kind node items).equalBelow b = true) :
    ∃ node' items', b = seq kind node' items' ∧ equalItems items items' = true := by
  cases b <;> try exact (Bool.false_ne_true h).elim
  case seq kind' node' items' =>
    obtain ⟨hkind, hitems⟩ := Bool.and_eq_true_iff.1 h
    exact ⟨node', items', by rw [beq_iff_eq.1 hkind], hitems⟩

/-- Only a keyed container of that kind looks equal to one. -/
theorem exists_of_equalBelow_dict {kind : DictKind} {node : NodeId}
    {entries : List (String × Value)} {b : Value}
    (h : (dict kind node entries).equalBelow b = true) :
    ∃ node' entries', b = dict kind node' entries' ∧ equalEntries entries entries' = true := by
  cases b <;> try exact (Bool.false_ne_true h).elim
  case dict kind' node' entries' =>
    obtain ⟨hkind, hentries⟩ := Bool.and_eq_true_iff.1 h
    exact ⟨node', entries', by rw [beq_iff_eq.1 hkind], hentries⟩

/-- A scalar is compared as a scalar, whatever it is compared with. -/
theorem equal_scalar {a b : Value} (h : a.node? = none) : a.equal b = a.equalScalar b := by
  cases a <;> first | cases h; done | skip
  all_goals cases b <;> simp only [equal]

/-- A value is compared with a scalar as a scalar. -/
theorem scalar_equal {a b : Value} (h : b.node? = none) : a.equal b = a.equalScalar b := by
  cases b <;> first | cases h; done | skip
  all_goals cases a <;> simp only [equal]

/-- A node always equals itself, and a scalar does unless it is not a number. -/
theorem equal_self (v : Value) : v.equal v = (v.node?.isSome || !v.isNaN) := by
  cases v with
  | text node s => simp [equal, node?]
  | seq kind node items => simp [equal, node?]
  | dict kind node entries => simp [equal, node?]
  | _ =>
    rw [equal_scalar rfl]
    exact equalScalar_self rfl

/-! ## Symmetry -/

mutual

/-- Equality is symmetric. -/
theorem equal_comm (a b : Value) : a.equal b = b.equal a := by
  cases a with
  | text node s =>
    cases b with
    | text node' s' => rw [equal, equal, Bool.beq_comm, Bool.beq_comm (a := s)]
    | _ => rfl
  | seq kind node items =>
    cases b with
    | seq kind' node' items' =>
      rw [equal, equal, Bool.beq_comm, Bool.beq_comm (a := node), equalItems_comm items items']
    | _ => rfl
  | dict kind node entries =>
    cases b with
    | dict kind' node' entries' =>
      rw [equal, equal, Bool.beq_comm, Bool.beq_comm (a := node),
        equalEntries_comm entries entries']
    | _ => rfl
  | _ => rw [equal_scalar rfl, scalar_equal rfl, equalScalar_comm]

/-- Equality of items is symmetric. -/
theorem equalItems_comm (items items' : List Value) :
    equalItems items items' = equalItems items' items := by
  cases items with
  | nil => cases items' <;> rfl
  | cons v items =>
    cases items' with
    | nil => rfl
    | cons v' items' => rw [equalItems, equalItems, equal_comm v v', equalItems_comm items items']

/-- Equality of entries is symmetric. -/
theorem equalEntries_comm (entries entries' : List (String × Value)) :
    equalEntries entries entries' = equalEntries entries' entries := by
  cases entries with
  | nil => cases entries' <;> rfl
  | cons entry entries =>
    cases entries' with
    | nil => rfl
    | cons entry' entries' =>
      rw [equalEntries, equalEntries, Bool.beq_comm, equal_comm entry.2 entry'.2,
        equalEntries_comm entries entries']

end

/-! ## Transitivity -/

mutual

/-- Equality is transitive among values in which every node is one value. A step by identity may be
left out, because it leads from a value to itself; two steps that look inside both are one. -/
theorem equal_trans {a b c : Value} (hab : a.Compatible b) (hbc : b.Compatible c)
    (h : a.equal b = true) (h' : b.equal c = true) : a.equal c = true := by
  rcases (Bool.or_eq_true _ _).mp (equal_eq a b ▸ h) with hnode | hbelow
  · rwa [hab.eq_of_sameNode hnode]
  rcases (Bool.or_eq_true _ _).mp (equal_eq b c ▸ h') with hnode | hbelow'
  · rwa [← hbc.eq_of_sameNode hnode]
  cases a with
  | text node s =>
    obtain ⟨node', rfl⟩ := exists_of_equalBelow_text hbelow
    obtain ⟨node'', rfl⟩ := exists_of_equalBelow_text hbelow'
    exact equal_of_equalBelow (beq_self_eq_true s)
  | seq kind node items =>
    obtain ⟨node', items', rfl, hitems⟩ := exists_of_equalBelow_seq hbelow
    obtain ⟨node'', items'', rfl, hitems'⟩ := exists_of_equalBelow_seq hbelow'
    refine equal_of_equalBelow (Bool.and_eq_true_iff.2 ⟨beq_self_eq_true kind, ?_⟩)
    exact equalItems_trans (.items hab) (.items hbc) hitems hitems'
  | dict kind node entries =>
    obtain ⟨node', entries', rfl, hentries⟩ := exists_of_equalBelow_dict hbelow
    obtain ⟨node'', entries'', rfl, hentries'⟩ := exists_of_equalBelow_dict hbelow'
    refine equal_of_equalBelow (Bool.and_eq_true_iff.2 ⟨beq_self_eq_true kind, ?_⟩)
    exact equalEntries_trans (.entries hab) (.entries hbc) hentries hentries'
  | _ =>
    rw [equal_scalar rfl] at h ⊢
    rw [equal_scalar (node?_of_equalScalar h)] at h'
    exact equalScalar_trans h h'

/-- Equality of items is transitive. -/
theorem equalItems_trans {as bs cs : List Value}
    (hab : OneValueEach (itemParts as) (itemParts bs))
    (hbc : OneValueEach (itemParts bs) (itemParts cs)) (h : equalItems as bs = true)
    (h' : equalItems bs cs = true) : equalItems as cs = true := by
  match as, bs, cs with
  | [], [], [] => rfl
  | a :: as, b :: bs, c :: cs =>
    rw [equalItems, Bool.and_eq_true] at h h' ⊢
    obtain ⟨hab, habs⟩ := hab.of_append
    obtain ⟨hbc, hbcs⟩ := hbc.of_append
    exact ⟨equal_trans hab hbc h.1 h'.1, equalItems_trans habs hbcs h.2 h'.2⟩

/-- Equality of entries is transitive. -/
theorem equalEntries_trans {as bs cs : List (String × Value)}
    (hab : OneValueEach (entryParts as) (entryParts bs))
    (hbc : OneValueEach (entryParts bs) (entryParts cs)) (h : equalEntries as bs = true)
    (h' : equalEntries bs cs = true) : equalEntries as cs = true := by
  match as, bs, cs with
  | [], [], [] => rfl
  | (key, a) :: as, (key', b) :: bs, (key'', c) :: cs =>
    simp only [equalEntries, Bool.and_eq_true, beq_iff_eq] at h h' ⊢
    obtain ⟨hab, habs⟩ := hab.of_append
    obtain ⟨hbc, hbcs⟩ := hbc.of_append
    obtain ⟨⟨hkey, hfirst⟩, hrest⟩ := h
    obtain ⟨⟨hkey', hfirst'⟩, hrest'⟩ := h'
    exact ⟨⟨hkey.trans hkey', equal_trans hab hbc hfirst hfirst'⟩,
      equalEntries_trans habs hbcs hrest hrest'⟩

end

/-! ## Against the comparison that looks inside everything -/

mutual

/-- Whether anything inside a value is not a number. -/
def holdsNaN : Value → Bool
  | seq _ _ items => itemsHoldNaN items
  | dict _ _ entries => entriesHoldNaN entries
  | v => v.isNaN

/-- Whether anything inside items is not a number. -/
def itemsHoldNaN : List Value → Bool
  | [] => false
  | v :: items => v.holdsNaN || itemsHoldNaN items

/-- Whether anything inside the values of entries is not a number. -/
def entriesHoldNaN : List (String × Value) → Bool
  | [] => false
  | (_, v) :: entries => v.holdsNaN || entriesHoldNaN entries

end

mutual

/-- A value has the same content as itself exactly when everything inside it is a number. -/
theorem equalContent_self (v : Value) : v.equalContent v = !v.holdsNaN := by
  cases v with
  | text node s => simp [equalContent, holdsNaN, isNaN]
  | seq kind node items => simp [equalContent, holdsNaN, equalItemContents_self items]
  | dict kind node entries => simp [equalContent, holdsNaN, equalEntryContents_self entries]
  | _ =>
    simp only [equalContent, holdsNaN]
    exact equalScalar_self rfl

/-- Items have the contents of themselves unless they hold what is not a number. -/
theorem equalItemContents_self (items : List Value) :
    equalItemContents items items = !itemsHoldNaN items := by
  cases items with
  | nil => rfl
  | cons v items =>
    rw [equalItemContents, itemsHoldNaN, Bool.not_or, equalContent_self v,
      equalItemContents_self items]

/-- Entries have the contents of themselves unless they hold what is not a number. -/
theorem equalEntryContents_self (entries : List (String × Value)) :
    equalEntryContents entries entries = !entriesHoldNaN entries := by
  cases entries with
  | nil => rfl
  | cons entry entries =>
    rw [equalEntryContents, entriesHoldNaN, Bool.not_or, beq_self_eq_true, Bool.true_and,
      equalContent_self entry.2, equalEntryContents_self entries]

end

mutual

/-- Values of equal contents are equal, whichever nodes they share. -/
theorem equal_of_equalContent {a b : Value} (h : a.equalContent b = true) : a.equal b = true := by
  cases a with
  | text node s =>
    cases b with
    | text node' s' => exact equal_of_equalBelow h
    | _ => exact h
  | seq kind node items =>
    cases b with
    | seq kind' node' items' =>
      obtain ⟨hkind, hitems⟩ := Bool.and_eq_true_iff.1 h
      exact equal_of_equalBelow
        (Bool.and_eq_true_iff.2 ⟨hkind, equalItems_of_equalItemContents hitems⟩)
    | _ => exact h
  | dict kind node entries =>
    cases b with
    | dict kind' node' entries' =>
      obtain ⟨hkind, hentries⟩ := Bool.and_eq_true_iff.1 h
      exact equal_of_equalBelow
        (Bool.and_eq_true_iff.2 ⟨hkind, equalEntries_of_equalEntryContents hentries⟩)
    | _ => exact h
  | _ => rwa [equal_scalar rfl]

/-- Items of equal contents are equal. -/
theorem equalItems_of_equalItemContents {items items' : List Value}
    (h : equalItemContents items items' = true) : equalItems items items' = true := by
  match items, items' with
  | [], [] => rfl
  | v :: items, v' :: items' =>
    rw [equalItemContents, Bool.and_eq_true] at h
    rw [equalItems, Bool.and_eq_true]
    exact h.imp equal_of_equalContent equalItems_of_equalItemContents

/-- Entries of equal contents are equal. -/
theorem equalEntries_of_equalEntryContents {entries entries' : List (String × Value)}
    (h : equalEntryContents entries entries' = true) : equalEntries entries entries' = true := by
  match entries, entries' with
  | [], [] => rfl
  | (key, v) :: entries, (key', v') :: entries' =>
    rw [equalEntryContents, Bool.and_eq_true, Bool.and_eq_true] at h
    rw [equalEntries, Bool.and_eq_true, Bool.and_eq_true]
    exact h.imp (And.imp_right equal_of_equalContent) equalEntries_of_equalEntryContents

end

mutual

/-- Looking inside confirms what identity says, as long as everything inside is a number. -/
theorem equalContent_of_equal {a b : Value} (hab : a.Compatible b) (hnan : a.holdsNaN = false)
    (h : a.equal b = true) : a.equalContent b = true := by
  rcases (Bool.or_eq_true _ _).mp (equal_eq a b ▸ h) with hnode | hbelow
  · rw [← hab.eq_of_sameNode hnode, equalContent_self, hnan, Bool.not_false]
  cases a with
  | text node s =>
    obtain ⟨node', rfl⟩ := exists_of_equalBelow_text hbelow
    exact beq_self_eq_true s
  | seq kind node items =>
    obtain ⟨node', items', rfl, hitems⟩ := exists_of_equalBelow_seq hbelow
    exact Bool.and_eq_true_iff.2
      ⟨beq_self_eq_true kind, equalItemContents_of_equalItems (.items hab) hnan hitems⟩
  | dict kind node entries =>
    obtain ⟨node', entries', rfl, hentries⟩ := exists_of_equalBelow_dict hbelow
    exact Bool.and_eq_true_iff.2
      ⟨beq_self_eq_true kind, equalEntryContents_of_equalEntries (.entries hab) hnan hentries⟩
  | _ => rwa [equal_scalar rfl] at h

/-- Equal items have equal contents when they hold only numbers. -/
theorem equalItemContents_of_equalItems {items items' : List Value}
    (hab : OneValueEach (itemParts items) (itemParts items')) (hnan : itemsHoldNaN items = false)
    (h : equalItems items items' = true) : equalItemContents items items' = true := by
  match items, items' with
  | [], [] => rfl
  | v :: items, v' :: items' =>
    rw [itemsHoldNaN, Bool.or_eq_false_iff] at hnan
    rw [equalItems, Bool.and_eq_true] at h
    rw [equalItemContents, Bool.and_eq_true]
    obtain ⟨hfirst, hrest⟩ := hab.of_append
    exact ⟨equalContent_of_equal hfirst hnan.1 h.1,
      equalItemContents_of_equalItems hrest hnan.2 h.2⟩

/-- Equal entries have equal contents when they hold only numbers. -/
theorem equalEntryContents_of_equalEntries {entries entries' : List (String × Value)}
    (hab : OneValueEach (entryParts entries) (entryParts entries'))
    (hnan : entriesHoldNaN entries = false) (h : equalEntries entries entries' = true) :
    equalEntryContents entries entries' = true := by
  match entries, entries' with
  | [], [] => rfl
  | (key, v) :: entries, (key', v') :: entries' =>
    rw [entriesHoldNaN, Bool.or_eq_false_iff] at hnan
    rw [equalEntries, Bool.and_eq_true, Bool.and_eq_true] at h
    rw [equalEntryContents, Bool.and_eq_true, Bool.and_eq_true]
    obtain ⟨hfirst, hrest⟩ := hab.of_append
    exact ⟨⟨h.1.1, equalContent_of_equal hfirst hnan.1 h.1.2⟩,
      equalEntryContents_of_equalEntries hrest hnan.2 h.2⟩

end

/-- Where one side holds only numbers, the shortcut changes no answer. -/
theorem equal_eq_equalContent {a b : Value} (hab : a.Compatible b) (hnan : a.holdsNaN = false) :
    a.equal b = a.equalContent b :=
  Bool.eq_iff_iff.2 ⟨equalContent_of_equal hab hnan, equal_of_equalContent⟩

/-- Comparing by identity first and by contents otherwise is coherent, among values in which every
node is one value: without anything that is not a number it is the comparison of contents, and
with it, it is still symmetric, transitive and never stricter than that comparison. -/
theorem equal_is_coherent :
    (∀ a b : Value, a.Compatible b → a.holdsNaN = false → b.holdsNaN = false →
      a.equal b = a.equalContent b) ∧
    (∀ a b : Value, a.equalContent b = true → a.equal b = true) ∧
    (∀ a b : Value, a.equal b = b.equal a) ∧
    (∀ a b c : Value, a.Compatible b → b.Compatible c → a.equal b = true → b.equal c = true →
      a.equal c = true) :=
  ⟨fun _ _ hab hnan _ => equal_eq_equalContent hab hnan, fun _ _ => equal_of_equalContent,
    equal_comm, fun _ _ _ => equal_trans⟩

/-- Three sequences that share a node with a float in it that is not a number, and have the two
zeros beside it: the chain of equalities goes through although the contents of its ends differ.
Beside them, two sequences of one text, in which identity and contents agree. -/
theorem equal_is_coherent_around_nan :
    let odd := seq .array 1 [float32 0x7fc00000]
    let first := seq .vector 2 [odd, float32 0]
    let second := seq .vector 3 [odd, float32 0x80000000]
    let third := seq .vector 4 [odd, float32 0]
    let name := seq .vector 5 [text 6 "name"]
    let copy := seq .vector 7 [text 6 "name"]
    (first.equal second = true ∧ second.equal third = true ∧ first.equal third = true ∧
        first.equalContent third = false) ∧
      name.equal copy = name.equalContent copy ∧ name.equal copy = copy.equal name := by
  intro odd first second third name copy
  obtain ⟨hcontent, -, hsymm, htrans⟩ := equal_is_coherent
  have hstep : first.equal second = true := by decide
  have hstep' : second.equal third = true := by decide
  refine ⟨⟨hstep, hstep', htrans first second third ?_ ?_ hstep hstep', by decide⟩,
    hcontent name copy ?_ (by decide) (by decide), hsymm name copy⟩ <;>
  simp [first, second, third, odd, name, copy, Compatible, OneValueEach, parts, itemParts, sameNode]

end Value
end SharedExchange
