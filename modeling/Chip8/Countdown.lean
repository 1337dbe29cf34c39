import Chip8.Cost

/-!
# Countdown timers

A countdown holds a value and the clock reading at which the value drops next.
It is looked at after every cycle and drops by at most one each time: no cycle
takes a whole period, so no drop is ever lost.
-/

set_option autoImplicit false

namespace Chip8

structure Countdown where
  value : UInt8
  deadline : Nat
  deriving DecidableEq

namespace Countdown

/-- A stopped countdown, due at the last reading of a 64-bit clock. -/
def idle : Countdown := ⟨0, UInt64.size - 1⟩

def isRunning (timer : Countdown) : Bool := timer.value != 0

def start (value : UInt8) (now : Nat) : Countdown := ⟨value, now + Cost.timerPeriod⟩

def sustain (value : UInt8) (now : Nat) (timer : Countdown) : Countdown :=
  if timer.value < value then start value now else timer

/-- Drop by one if the deadline has passed, and set the next deadline one period on. -/
def refresh (now : Nat) (timer : Countdown) : Countdown :=
  if timer.isRunning && timer.deadline ≤ now then
    ⟨timer.value - 1, timer.deadline + Cost.timerPeriod⟩
  else
    timer

theorem refresh_of_value_eq_zero {now : Nat} {timer : Countdown} (stopped : timer.value = 0) :
    timer.refresh now = timer := by
  simp [refresh, isRunning, stopped]

theorem refresh_of_lt {now : Nat} {timer : Countdown} (early : now < timer.deadline) :
    timer.refresh now = timer := by
  simp [refresh, Nat.not_le.mpr early]

end Countdown

end Chip8
