import Chip8.Machine.Execute

/-!
# One cycle of a machine

A cycle looks at the keys and then either carries out one instruction or, in a
machine that waits for a key, looks whether the wait is over.  It answers its cost
in clocks.  Every cycle of a machine that has not stopped costs something, moves the
clock on by its cost, advances the seed by one and lets the timers catch up.
-/

set_option autoImplicit false

namespace Chip8

namespace Machine

variable {w h : Nat}

/-! ## An instruction -/

/-- The big-endian word at the program counter, if memory holds all of it. -/
def fetch? (m : Machine w h) : Option UInt16 :=
  if m.pc + Instruction.width ≤ m.memory.size then
    some ((m.memory.byte m.pc).toUInt16 * 256 + (m.memory.byte (m.pc + 1)).toUInt16)
  else
    none

/-- Stop if the program counter has left memory.  The result's cost falls away with the
fault. -/
def checked (machineCycles : Nat) (m : Machine w h) : Machine w h × Nat :=
  if m.pc < m.memory.size then (m, machineCycles) else (m.stop .outOfBounds, 0)

/-- Carry out a fetched word in a machine whose program counter is past it. -/
def execute (word : UInt16) (m : Machine w h) : Machine w h × Nat :=
  match Instruction.decode? word with
  | none => (m.stop .unexpectedOpcode, 0)
  | some instruction =>
      match m.refusal? instruction with
      | some fault => (m.stop fault, 0)
      | none =>
          let machineCycles := m.cost instruction
          (m.perform instruction).checked machineCycles

def step (m : Machine w h) : Machine w h × Nat :=
  match m.fetch? with
  | none => (m.stop .outOfBounds, 0)
  | some word => { m with pc := m.pc + Instruction.width }.execute word

/-! ## A key wait -/

/-- The timer value to which a held key keeps the tone. -/
def keyToneLength : UInt8 := 4

/-- Look whether the key wait for register `x` is over: it ends when keys that were seen
down are all up again, and the lowest of them is the answer. -/
def poll (x : Fin 16) (m : Machine w h) : Machine w h :=
  if m.keys.isEmpty then
    match m.latch.lowest? with
    | some key => { m with wait := none, latch := ∅ }.setRegister x (UInt8.ofNat key)
    | none => m
  else
    let m := { m with latch := m.keys }
    if m.config.keyTone then { m with sound := m.sound.sustain keyToneLength m.clock } else m

/-! ## A cycle -/

/-- Let time pass: `machineCycles` on the clock, one on the seed. -/
def elapse (machineCycles : Nat) (m : Machine w h) : Machine w h × Nat :=
  let cost := Cost.clocks machineCycles
  let now := m.clock + cost
  ({ m with
      seed := m.seed + 1
      clock := now
      delay := m.delay.refresh now
      sound := m.sound.refresh now },
    cost)

/-- One cycle under the given keys, with its cost in clocks.  A stopped machine stays as
it is, at no cost. -/
def cycle (keys : KeySet) (m : Machine w h) : Machine w h × Nat :=
  if m.isOk then
    let m := { m with keys }
    match m.wait with
    | some x => (m.poll x).elapse Cost.keyPoll
    | none =>
        let done := m.step
        done.1.elapse (Cost.fetch + done.2)
  else
    (m, 0)

/-- Cycles under the given keys, one set to a cycle, their cost added to `spent`. -/
def runFrom (spent : Nat) : List KeySet → Machine w h → Machine w h × Nat
  | [], m => (m, spent)
  | keys :: later, m =>
      let done := m.cycle keys
      runFrom (spent + done.2) later done.1

def run (samples : List KeySet) (m : Machine w h) : Machine w h × Nat := m.runFrom 0 samples

@[simp] theorem clock_elapse (machineCycles : Nat) (m : Machine w h) :
    (m.elapse machineCycles).1.clock = m.clock + (m.elapse machineCycles).2 := rfl

theorem cost_elapse (machineCycles : Nat) (m : Machine w h) :
    (m.elapse machineCycles).2 = machineCycles * 8 := rfl

theorem cost_cycle_pos (keys : KeySet) {m : Machine w h} (ok : m.isOk = true) :
    0 < (m.cycle keys).2 := by
  simp only [cycle, ok, if_true]
  split <;> simp only [cost_elapse, Cost.keyPoll, Cost.fetch] <;> omega

end Machine

end Chip8
