import Mathlib.Algebra.Ring.Nat
import Chip8.Countdown
import Chip8.CallStack
import Chip8.Random

/-!
# Checked parts

The parts of a machine once more, with every operation that a word or an array can
refuse answering nothing when it is refused: a sum beyond the width of its type, a
difference below zero, a remainder by zero, an index or a slice past the end.  Beside
each operation stands where it agrees with the unchecked one.
-/

set_option autoImplicit false

namespace Chip8

namespace Checked

/-! ## Numbers -/

def fit (bits value : Nat) : Option Nat := if value < 2 ^ bits then some value else none

def add (bits a b : Nat) : Option Nat := fit bits (a + b)

def mul (bits a b : Nat) : Option Nat := fit bits (a * b)

def sub (a b : Nat) : Option Nat := if b ≤ a then some (a - b) else none

def rem (a b : Nat) : Option Nat := if b = 0 then none else some (a % b)

theorem fit_eq {bits value : Nat} (fits : value < 2 ^ bits) : fit bits value = some value :=
  if_pos fits

theorem add_eq {bits a b : Nat} (fits : a + b < 2 ^ bits) : add bits a b = some (a + b) :=
  if_pos fits

theorem mul_eq {bits a b : Nat} (fits : a * b < 2 ^ bits) : mul bits a b = some (a * b) :=
  if_pos fits

theorem sub_eq {a b : Nat} (covered : b ≤ a) : sub a b = some (a - b) := if_pos covered

theorem rem_eq {a b : Nat} (positive : 0 < b) : rem a b = some (a % b) :=
  if_neg (Nat.pos_iff_ne_zero.mp positive)

/-! ## Memory -/

def slice (memory : Memory) (start stop : Nat) : Option (List UInt8) :=
  if start ≤ stop ∧ stop ≤ memory.size then some (memory.block start (stop - start)) else none

def splice (memory : Memory) (start stop : Nat) (bytes : List UInt8) : Option Memory :=
  if start ≤ stop ∧ stop ≤ memory.size ∧ bytes.length = stop - start then
    some (memory.write start bytes)
  else
    none

def image (size : Nat) (program : List UInt8) : Option Memory := do
  let fontEnd ← add 64 Memory.fontStart Memory.font.length
  let withFont ← splice ⟨Array.replicate size 0⟩ Memory.fontStart fontEnd Memory.font
  let programEnd ← add 64 Memory.programStart program.length
  splice withFont Memory.programStart programEnd program

theorem slice_eq {memory : Memory} {start length : Nat} (inside : start + length ≤ memory.size) :
    slice memory start (start + length) = some (memory.block start length) := by
  rw [slice, if_pos ⟨Nat.le_add_right _ _, inside⟩, Nat.add_sub_cancel_left]

theorem splice_eq {memory : Memory} {start stop : Nat} {bytes : List UInt8}
    (whole : start + bytes.length = stop) (inside : stop ≤ memory.size) :
    splice memory start stop bytes = some (memory.write start bytes) := by
  subst whole
  exact if_pos ⟨Nat.le_add_right _ _, inside, (Nat.add_sub_cancel_left _ _).symm⟩

theorem image_eq {size : Nat} {program : List UInt8} (least : Config.minMemory ≤ size)
    (most : size ≤ Config.maxMemory)
    (room : Memory.programStart + program.length ≤ size) :
    image size program = some (Memory.image size program) := by
  have blank : (⟨Array.replicate size 0⟩ : Memory).size = size := Array.size_replicate
  have reserved : Memory.fontStart + Memory.font.length ≤ size := Nat.le_trans (by decide) least
  have fontFits : Memory.fontStart + Memory.font.length < 2 ^ 64 := by decide
  have programFits : Memory.programStart + program.length < 2 ^ 64 :=
    Nat.lt_of_le_of_lt (Nat.le_trans room most) (by decide)
  have withFont : splice ⟨Array.replicate size 0⟩ Memory.fontStart
      (Memory.fontStart + Memory.font.length) Memory.font = some _ :=
    splice_eq rfl (blank.symm ▸ reserved)
  simp only [image, add_eq fontFits, withFont, add_eq programFits, Option.bind_eq_bind,
    Option.bind_some]
  apply splice_eq rfl
  rw [Memory.size_write, blank]
  exact room

/-! ## The call stack -/

def push (stack : CallStack) (address : Nat) : Option CallStack := do
  let pointer ← sub stack.pointer 1
  if _ : pointer < 32 then return ⟨stack.slots.set pointer address, pointer⟩ else none

def pop (stack : CallStack) : Option (Nat × CallStack) := do
  let address ← stack.slots[stack.pointer]?
  let pointer ← add 64 stack.pointer 1
  return (address, { stack with pointer })

theorem push_eq {stack : CallStack} (sound : stack.pointer ≤ 32) (room : stack.isFull = false)
    (address : Nat) : push stack address = some (stack.push address) := by
  have used : 0 < stack.pointer := Nat.pos_of_ne_zero (by simpa [CallStack.isFull] using room)
  have slot : stack.pointer - 1 < 32 := by omega
  have written : stack.slots.set (stack.pointer - 1) address slot =
      stack.slots.setIfInBounds (stack.pointer - 1) address := by
    simp [Vector.set, Vector.setIfInBounds, Array.setIfInBounds, slot]
  simp [push, sub_eq used, slot, CallStack.push, written]

theorem pop_eq {stack : CallStack} (inUse : stack.isEmpty = false) (otherwise : Nat) :
    pop stack = some (stack.top?.getD otherwise, stack.pop) := by
  have slot : stack.pointer < 32 := by simpa [CallStack.isEmpty] using inUse
  have fits : stack.pointer + 1 < 2 ^ 64 := by omega
  simp [pop, add_eq fits, slot, CallStack.top?, CallStack.pop]

/-! ## Timers -/

def start (value : UInt8) (now : Nat) : Option Countdown := do
  let deadline ← add 64 now Cost.timerPeriod
  return ⟨value, deadline⟩

def sustain (value : UInt8) (now : Nat) (timer : Countdown) : Option Countdown :=
  if timer.value < value then start value now else some timer

def refresh (now : Nat) (timer : Countdown) : Option Countdown :=
  if timer.isRunning && timer.deadline ≤ now then do
    let value ← sub timer.value.toNat 1
    let deadline ← add 64 timer.deadline Cost.timerPeriod
    return ⟨UInt8.ofNat value, deadline⟩
  else
    some timer

theorem start_eq {value : UInt8} {now : Nat} (early : now + Cost.timerPeriod < 2 ^ 64) :
    start value now = some (.start value now) := by
  simp [start, add_eq early, Countdown.start]

theorem sustain_eq {value : UInt8} {now : Nat} {timer : Countdown}
    (early : now + Cost.timerPeriod < 2 ^ 64) :
    sustain value now timer = some (timer.sustain value now) := by
  simp only [sustain, Countdown.sustain]
  split
  · exact start_eq early
  · rfl

/-- A timer that has stopped may hold any deadline: it is not looked at. -/
theorem refresh_eq {now : Nat} {timer : Countdown}
    (early : 0 < timer.value → timer.deadline + Cost.timerPeriod < 2 ^ 64) :
    refresh now timer = some (timer.refresh now) := by
  simp only [refresh, Countdown.refresh]
  split
  · rename_i due
    simp only [Countdown.isRunning, Bool.and_eq_true, bne_iff_ne, ne_eq] at due
    have running : 0 < timer.value := UInt8.pos_iff_ne_zero.mpr due.1
    have positive : 1 ≤ timer.value.toNat := UInt8.lt_iff_toNat_lt.mp running
    have dropped : UInt8.ofNat (timer.value.toNat - 1) = timer.value - 1 := by
      rw [UInt8.ofNat_sub (by simpa using positive), UInt8.ofNat_toNat]
      rfl
    simp [sub_eq positive, add_eq (early running), dropped]
  · rfl

/-! ## Random bytes -/

def random (seed : UInt16) (pc : Nat) (memory : Memory) : Option (UInt8 × UInt16) := do
  let seed := seed + 1
  let address ← rem (pc / 256 * 256 + seed.toNat % 256) memory.size
  let stirred ← memory.get? address
  let mixed := stirred + UInt8.ofNat (seed.toNat / 256)
  let value := mixed + Random.turnRight mixed
  return (value, UInt16.ofNat (value.toNat * 256 + seed.toNat % 256))

theorem random_eq {memory : Memory} (positive : 0 < memory.size) (seed : UInt16) (pc : Nat) :
    random seed pc memory = some (Random.next seed pc memory) := by
  have inside : ∀ address, memory.get? (address % memory.size) =
      some (memory.byte (address % memory.size)) := by
    intro address
    have below : address % memory.bytes.size < memory.bytes.size := Nat.mod_lt _ positive
    simp [Memory.byte, Memory.get?, Memory.size, below]
  simp [random, rem_eq positive, inside, Random.next, Random.address]

end Checked

end Chip8
