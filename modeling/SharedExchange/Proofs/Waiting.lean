import Mathlib.Tactic
import SharedExchange.Waiting

/-! # How waits end

A wait makes up to a number of attempts that is known beforehand (`attempts`), and stops at the
first that yields something. If none does, it ends as it was to end (`ranOut`): its time is up, or
the fuel, or there is no telling when its time is up. Nothing else about its rounds matters
(`waitFor_eq`).

Whoever waits is seldom alone: meanwhile others work on the same state. `amid` puts what they do
between the attempts and counts these, and `ends_waitFor` says how such a wait ends: at the first
attempt that yields something, after which none is made, or after as many as it was allowed
(`Ends`). Up to there all attempts are `Fruitless`, and what these leave is found by induction. -/

namespace SharedExchange

variable {α σ : Type} {attempt : σ → Option α × σ}

/-- A clock that can tell any time there is a word for, on a machine that makes a round each
nanosecond. -/
def Clock.brisk : Clock := ⟨UInt64.size, fun _ time => time, fun _ => rfl⟩

/-! ## Waits as attempts -/

/-- Make up to so many attempts, and stop at the first that yields something. -/
def tries (attempt : σ → Option α × σ) : Nat → σ → Option α × σ
  | 0, s => (none, s)
  | n + 1, s =>
    match attempt s with
    | (some a, s) => (some a, s)
    | (none, s) => tries attempt n s

/-- The number of attempts of a wait: one at once, one in each allowed round, and one more at the
deadline; without a deadline one at once and one for each round of the fuel; and only the first if
the clock cannot tell the deadline. -/
def attempts (fuel : Nat) : (allowed : Except Crash (Option Nat)) → Nat
  | .ok (some rounds) => rounds + 2
  | .ok none => fuel + 1
  | .error _ => 1

/-- How a wait ends if no attempt yields anything. -/
def ranOut : (allowed : Except Crash (Option Nat)) → Waited α
  | .ok (some _) => .expired
  | .ok none => .stillWaiting
  | .error crash => .crashed crash

/-- How a wait ends, by what its last attempt brought. -/
def ending (allowed : Except Crash (Option Nat)) : Option α → Waited α
  | some a => .got a
  | none => ranOut allowed

/-- Running out brings nothing. -/
@[simp] theorem ranOut_ne_got (allowed : Except Crash (Option Nat)) (a : α) :
    ranOut allowed ≠ .got a := by
  match allowed with
  | .ok none => nofun
  | .ok (some _) => nofun
  | .error _ => nofun

/-- Running out is no matter of what was waited for. -/
@[simp] theorem map_ranOut {β : Type} (f : α → β) (allowed : Except Crash (Option Nat)) :
    (ranOut allowed).map f = ranOut allowed := by
  match allowed with
  | .ok none => rfl
  | .ok (some _) => rfl
  | .error _ => rfl

/-- A wait that has no time makes two attempts, whatever the clock and the pace. -/
theorem attempts_of_no_time (fuel : Nat) (clock : Clock) (patience : Patience) :
    attempts fuel (clock.allowed patience (some 0)) = 2 := by
  rw [Clock.allowed_zero, attempts]

/-- Every wait makes an attempt. -/
theorem attempts_pos (fuel : Nat) (allowed : Except Crash (Option Nat)) :
    0 < attempts fuel allowed := by
  match allowed with
  | .ok none => exact Nat.succ_pos fuel
  | .ok (some rounds) => exact Nat.succ_pos (rounds + 1)
  | .error _ => exact Nat.one_pos

/-- The rounds of a wait are attempts, as long as there is fuel for all of them. -/
theorem waitRounds_eq {fuel : Nat} {allowed : Option Nat} (h : ∀ n ∈ allowed, fuel = n + 1)
    (s : σ) :
    waitRounds attempt fuel allowed s =
      (tries attempt fuel s).map (ending (.ok allowed)) id := by
  induction fuel generalizing allowed s with
  | zero =>
    cases allowed with
    | none => rfl
    | some n => exact absurd (h n rfl) (Nat.succ_ne_zero n).symm
  | succ fuel ih =>
    cases hattempt : attempt s with
    | mk answer s' =>
    cases answer with
    | some a => cases allowed <;> simp only [waitRounds, tries, hattempt] <;> rfl
    | none =>
      simp only [tries, hattempt]
      cases allowed with
      | none =>
        simp only [waitRounds, hattempt]
        exact ih (fun n hn => (Option.not_mem_none n hn).elim) s'
      | some n =>
        -- each attempt takes one of the fuel and one of those allowed, so both are used up together
        have hfuel : fuel = n := Nat.succ.inj (h n rfl)
        cases n with
        | zero =>
          simp only [waitRounds, hattempt, hfuel]
          rfl
        | succ n =>
          simp only [waitRounds, hattempt]
          exact ih (fun n' hn' => Option.some.inj hn' ▸ hfuel) s'

/-- A wait is so many attempts. -/
theorem waitFor_eq (fuel : Nat) (allowed : Except Crash (Option Nat)) (s : σ) :
    waitFor attempt fuel allowed s =
      (tries attempt (attempts fuel allowed) s).map (ending allowed) id := by
  obtain ⟨left, hleft⟩ := Nat.exists_eq_succ_of_ne_zero (attempts_pos fuel allowed).ne'
  cases hattempt : attempt s with
  | mk answer s' =>
  cases answer with
  | some a =>
    simp only [waitFor, hleft, tries, hattempt]
    rfl
  | none =>
    simp only [waitFor, hattempt]
    match allowed with
    | .error crash =>
      simp only [attempts, tries, hattempt]
      rfl
    | .ok none =>
      simp only [attempts, tries, hattempt]
      exact waitRounds_eq (fun n hn => (Option.not_mem_none n hn).elim) s'
    | .ok (some n) =>
      rw [show attempts fuel (.ok (some n)) = (n + 1) + 1 from rfl, tries, hattempt]
      exact waitRounds_eq (fun n' hn' => by rw [Option.mem_some_iff.1 hn']) s'

/-! ## Waits among others -/

/-- Nobody else is at work. -/
def nobody (_ : Nat) (s : σ) : σ := s

/-- What others make of a state if left to themselves: `others n` is what they do to it after `n`
attempts and ahead of the next. -/
def meanwhile (others : Nat → σ → σ) (s : σ) : Nat → σ
  | 0 => s
  | n + 1 => others n (meanwhile others s n)

/-- When nobody else is there, nothing happens meanwhile. -/
@[simp] theorem meanwhile_nobody (s : σ) (n : Nat) : meanwhile nobody s n = s := by
  induction n with
  | zero => rfl
  | succ n ih => rw [meanwhile, ih, nobody]

/-- Others are at work once: after `k` attempts. -/
def once (k : Nat) (f : σ → σ) (n : Nat) (s : σ) : σ := if n = k then f s else s

/-- What happens once has happened behind its round. -/
theorem meanwhile_once (k : Nat) (f : σ → σ) (s : σ) (n : Nat) :
    meanwhile (once k f) s n = if n ≤ k then s else f s := by
  induction n with
  | zero => rfl
  | succ n ih =>
    rw [meanwhile, ih, once]
    by_cases heq : n = k
    · rw [if_pos heq, if_pos (Nat.le_of_eq heq), if_neg (by omega)]
    · by_cases hle : n ≤ k
      · rw [if_neg heq, if_pos hle, if_pos (by omega)]
      · rw [if_neg heq, if_neg hle, if_neg (by omega)]

/-- What others do once is all that they do. -/
theorem rel_meanwhile_once {R : σ → σ → Prop} (hrest : ∀ s, R s s) {f : σ → σ} {s : σ}
    (h : R s (f s)) (k n : Nat) :
    R (meanwhile (once k f) s n) (meanwhile (once k f) s (n + 1)) := by
  rw [meanwhile_once, meanwhile_once]
  by_cases hnext : n + 1 ≤ k
  · rw [if_pos hnext, if_pos (Nat.le_of_succ_le hnext)]
    exact hrest s
  · rw [if_neg hnext]
    split
    · exact h
    · exact hrest (f s)

/-- An attempt with others at work ahead of it. The attempts are counted. -/
def amid (others : Nat → σ → σ) (attempt : σ → Option α × σ) : σ × Nat → Option α × σ × Nat
  | (s, n) =>
    let (answer, s) := attempt (others n s)
    (answer, s, n + 1)

/-- So many attempts in a row yield nothing. -/
inductive Fruitless (others : Nat → σ → σ) (attempt : σ → Option α × σ) (s : σ) : Nat → σ → Prop
  | start : Fruitless others attempt s 0 s
  | next {n : Nat} {s' s'' : σ} (h : Fruitless others attempt s n s')
    (hnone : attempt (others n s') = (none, s'')) : Fruitless others attempt s (n + 1) s''

/-- How a wait with up to `limit` attempts ends: what it brings, the state that it leaves, and how
many attempts it made. -/
inductive Ends (others : Nat → σ → σ) (attempt : σ → Option α × σ) (s : σ) (limit : Nat) :
    Option α → σ × Nat → Prop
  /-- An attempt yields something. It is the first to do so and the last to be made. -/
  | got {n : Nat} {s' s'' : σ} {a : α} (hlimit : n < limit) (h : Fruitless others attempt s n s')
    (hsome : attempt (others n s') = (some a, s'')) :
    Ends others attempt s limit (some a) (s'', n + 1)
  /-- All attempts are made, and none yields anything. -/
  | expired {s' : σ} (h : Fruitless others attempt s limit s') :
    Ends others attempt s limit none (s', limit)

variable {others : Nat → σ → σ} {s s' s'' : σ} {a : α} {n limit : Nat} {answer : Option α}

/-- After fruitless attempts, those that are left are made from where they led. -/
theorem Fruitless.tries_eq (h : Fruitless others attempt s n s') (left : Nat) :
    tries (amid others attempt) (n + left) (s, 0) = tries (amid others attempt) left (s', n) := by
  induction h generalizing left with
  | start => rw [Nat.zero_add]
  | next _ hnone ih =>
    rw [Nat.add_assoc, Nat.add_comm 1, ih, tries, amid, hnone]

/-- From where fruitless attempts led, those that are left come to an end. -/
theorem Fruitless.ends (h : Fruitless others attempt s n s') (left : Nat) :
    Ends others attempt s (n + left) (tries (amid others attempt) left (s', n)).1
      (tries (amid others attempt) left (s', n)).2 := by
  induction left generalizing n s' with
  | zero => exact .expired h
  | succ left ih =>
    cases hattempt : attempt (others n s') with
    | mk answer s'' =>
    cases answer with
    | some a =>
      rw [tries, amid, hattempt]
      exact .got (by omega) h hattempt
    | none =>
      -- one more attempt has been fruitless, and one less is left
      rw [tries, amid, hattempt, show n + (left + 1) = n + 1 + left by omega]
      exact ih (h.next hattempt)

/-- A wait makes no more attempts than it may. -/
theorem Ends.le {x : σ × Nat} (h : Ends others attempt s limit answer x) : x.2 ≤ limit := by
  cases h with
  | got hlimit _ _ => exact hlimit
  | expired _ => exact Nat.le_refl _

/-- A wait ends with the first attempt that yields something, or with its last. -/
theorem ends_waitFor (others : Nat → σ → σ) (attempt : σ → Option α × σ) (fuel : Nat)
    (allowed : Except Crash (Option Nat)) (s : σ) :
    ∃ brought,
      (waitFor (amid others attempt) fuel allowed (s, 0)).1 = ending allowed brought ∧
      Ends others attempt s (attempts fuel allowed) brought
        (waitFor (amid others attempt) fuel allowed (s, 0)).2 := by
  have hstart : Fruitless others attempt s 0 s := .start
  have hends := hstart.ends (attempts fuel allowed)
  rw [Nat.zero_add] at hends
  rw [waitFor_eq]
  exact ⟨_, rfl, hends⟩

/-- A wait that brings nothing has made all its attempts, and ends as it was to end. -/
structure RunsOut (allowed : Except Crash (Option Nat)) (fuel : Nat) (answer : Waited α)
    (calls : Nat) : Prop where
  answer_eq : answer = ranOut allowed
  calls_eq : calls = attempts fuel allowed

/-- A wait that brings nothing runs out. -/
theorem runsOut_waitFor (others : Nat → σ → σ) (attempt : σ → Option α × σ) (fuel : Nat)
    (allowed : Except Crash (Option Nat)) (s : σ)
    (h : ∀ a, (waitFor (amid others attempt) fuel allowed (s, 0)).1 ≠ .got a) :
    RunsOut allowed fuel (waitFor (amid others attempt) fuel allowed (s, 0)).1
      (waitFor (amid others attempt) fuel allowed (s, 0)).2.2 := by
  obtain ⟨brought, hanswer, hends⟩ := ends_waitFor others attempt fuel allowed s
  generalize waitFor (amid others attempt) fuel allowed (s, 0) = run at h hanswer hends
  obtain ⟨answer, left⟩ := run
  cases hends with
  | got _ _ _ => exact absurd hanswer (h _)
  | expired _ => exact ⟨hanswer, rfl⟩

/-- If there is time for the first attempt that yields something, that is how the wait ends. -/
theorem waitFor_of_first (h : Fruitless others attempt s n s')
    (hsome : attempt (others n s') = (some a, s'')) {fuel : Nat}
    {allowed : Except Crash (Option Nat)} (hlimit : n < attempts fuel allowed) :
    waitFor (amid others attempt) fuel allowed (s, 0) = (.got a, s'', n + 1) := by
  obtain ⟨left, hleft⟩ := Nat.exists_eq_add_of_lt hlimit
  rw [waitFor_eq, hleft, Nat.add_assoc, h.tries_eq, tries, amid, hsome]
  rfl

/-- Counting the attempts does not change the rounds of a wait. -/
theorem waitRounds_amid_nobody (attempt : σ → Option α × σ) (fuel : Nat) (allowed : Option Nat)
    (s : σ) (n : Nat) :
    (waitRounds (amid nobody attempt) fuel allowed (s, n)).map id Prod.fst =
      waitRounds attempt fuel allowed s := by
  -- the next round goes on with a higher count
  induction fuel generalizing allowed s n with
  | zero => rfl
  | succ fuel ih =>
    have hcall : amid nobody attempt (s, n) = ((attempt s).1, (attempt s).2, n + 1) := rfl
    cases hattempt : attempt s with
    | mk answer s' =>
    rw [hattempt] at hcall
    cases answer with
    | some a => cases allowed <;> simp only [waitRounds, hcall, hattempt] <;> rfl
    | none =>
      match allowed with
      | none =>
        simp only [waitRounds, hcall, hattempt]
        exact ih none s' (n + 1)
      | some 0 =>
        simp only [waitRounds, hcall, hattempt]
        rfl
      | some (rounds + 1) =>
        simp only [waitRounds, hcall, hattempt]
        exact ih (some rounds) s' (n + 1)

/-- Counting the attempts does not change a wait. -/
theorem waitFor_amid_nobody (attempt : σ → Option α × σ) (fuel : Nat)
    (allowed : Except Crash (Option Nat)) (s : σ) :
    (waitFor (amid nobody attempt) fuel allowed (s, 0)).map id Prod.fst =
      waitFor attempt fuel allowed s := by
  have hcall : amid nobody attempt (s, 0) = ((attempt s).1, (attempt s).2, 1) := rfl
  cases hattempt : attempt s with
  | mk answer s' =>
  rw [hattempt] at hcall
  cases answer with
  | some a =>
    simp only [waitFor, hcall, hattempt]
    rfl
  | none =>
    simp only [waitFor, hcall, hattempt]
    match allowed with
    | .error _ => rfl
    | .ok none => exact waitRounds_amid_nobody ..
    | .ok (some _) => exact waitRounds_amid_nobody ..

/-- A wait with nobody else at work stops at the first attempt that yields something. `run` is the
wait with its attempts counted. -/
structure StopsAtFirst (attempt : σ → Option α × σ) (s : σ) (run : Waited α × σ × Nat) : Prop where
  /-- It brings what that attempt yields, and makes none after it. -/
  got : ∀ a, run.1 = .got a → ∃ n s', Fruitless nobody attempt s n s' ∧
    attempt s' = (some a, run.2.1) ∧ run.2.2 = n + 1
  /-- If it brings nothing, none of its attempts has yielded anything. -/
  nothing : (∀ a, run.1 ≠ .got a) → Fruitless nobody attempt s run.2.2 run.2.1

/-- Every wait with nobody else at work does so. -/
theorem stopsAtFirst_waitFor (attempt : σ → Option α × σ) (fuel : Nat)
    (allowed : Except Crash (Option Nat)) (s : σ) :
    StopsAtFirst attempt s (waitFor (amid nobody attempt) fuel allowed (s, 0)) := by
  obtain ⟨brought, hanswer, hends⟩ := ends_waitFor nobody attempt fuel allowed s
  generalize waitFor (amid nobody attempt) fuel allowed (s, 0) = run at hanswer hends
  obtain ⟨ended, left⟩ := run
  obtain rfl : ended = ending allowed brought := hanswer
  cases hends with
  | got _ h hsome =>
    refine ⟨?_, fun hnothing => absurd rfl (hnothing _)⟩
    rintro _ ⟨⟩
    exact ⟨_, _, h, hsome, rfl⟩
  | expired h =>
    exact ⟨fun a hgot => absurd hgot (ranOut_ne_got allowed a), fun _ => h⟩

end SharedExchange
