import SharedExchange.Fault

/-! # Waiting

A wait repeats an attempt until it yields something or the wait has run out of rounds. The attempt
is a function on whatever state it works in, so that a wait is an ordinary recursion:

* the first attempt is made at once, and each round makes one more;
* a wait with a deadline may go on for so many rounds beyond the first, a wait without one for
  ever. As every computation here ends, a wait without deadline is given some fuel, and answers
  `stillWaiting` if that was too little;
* a deadline beyond what the clock can tell breaks the wait off, unless the first attempt yields.

`Patience` is the pace that a wait asks for. How many rounds that makes in a given time depends on
the machine, and is for a `Clock` to say. -/

namespace SharedExchange

/-- How a wait paces itself: busy rounds, then rounds that yield the processor, then rounds that
sleep. -/
structure Patience where
  spinRounds : Nat
  yieldRounds : Nat
  /-- The sleep of a round, in nanoseconds. -/
  parkNanos : Nat
deriving DecidableEq

namespace Patience

/-- The pace of a wait that does not ask for another. -/
def standard : Patience := ⟨64, 16, 50000⟩

instance : Inhabited Patience := ⟨standard⟩

end Patience

/-- What the time does during a wait. Times are in nanoseconds. -/
structure Clock where
  /-- The longest timeout whose end the clock can tell. -/
  horizon : Nat
  /-- How many rounds after the first a wait at this pace makes before so much time has passed. -/
  rounds : Patience → Nat → Nat
  /-- The clock never runs back, so no time at all has always passed. -/
  rounds_zero : ∀ patience, rounds patience 0 = 0

/-- The rounds that a timeout allows; any number without one. -/
def Clock.allowed (clock : Clock) (patience : Patience) :
    Option Nat → Except Crash (Option Nat)
  | none => .ok none
  | some timeout =>
    if clock.horizon < timeout then .error .overflow
    else .ok (some (clock.rounds patience timeout))

/-- Every clock can tell the present, and by then the time is up. -/
@[simp] theorem Clock.allowed_zero (clock : Clock) (patience : Patience) :
    clock.allowed patience (some 0) = .ok (some 0) := by
  simp [allowed, clock.rounds_zero]

/-- How a wait ended. -/
inductive Waited (α : Type) where
  | got (a : α)
  | expired
  /-- The fuel ran out before the wait had ended. -/
  | stillWaiting
  | crashed (crash : Crash)
deriving DecidableEq

/-- The same end of a wait, with a function of what it brought. -/
def Waited.map {α β : Type} (f : α → β) : Waited α → Waited β
  | .got a => .got (f a)
  | .expired => .expired
  | .stillWaiting => .stillWaiting
  | .crashed crash => .crashed crash

/-- The rounds of a wait: an attempt each, and the end once no more rounds are allowed. -/
def waitRounds {α σ : Type} (attempt : σ → Option α × σ) :
    (fuel : Nat) → (allowed : Option Nat) → σ → Waited α × σ
  | 0, _, s => (.stillWaiting, s)
  | fuel + 1, allowed, s =>
    match attempt s, allowed with
    | (some a, s), _ => (.got a, s)
    | (none, s), none => waitRounds attempt fuel none s
    | (none, s), some 0 => (.expired, s)
    | (none, s), some (n + 1) => waitRounds attempt fuel (some n) s

/-- Repeat an attempt until it yields: at once, then in every allowed round. Without a deadline the
wait has `fuel` rounds. -/
def waitFor {α σ : Type} (attempt : σ → Option α × σ) (fuel : Nat)
    (allowed : Except Crash (Option Nat)) (s : σ) : Waited α × σ :=
  match attempt s with
  | (some a, s) => (.got a, s)
  | (none, s) =>
    match allowed with
    | .error crash => (.crashed crash, s)
    | .ok none => waitRounds attempt fuel none s
    | .ok (some n) => waitRounds attempt (n + 1) (some n) s

end SharedExchange
