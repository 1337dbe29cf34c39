import Chip8.CallStack
import Chip8.Countdown
import Chip8.Fault
import Chip8.KeySet
import Chip8.Memory
import Chip8.Sprite

/-!
# The state of a machine

A machine with a display of `w` by `h` pixels: its memory, registers, call stack,
timers and picture, the keys it last looked at, and the clock.  A machine that waits
for a key remembers the register to fill and, in a part of its own, the keys that were
down when it last saw any; a machine that has stopped remembers its fault.
-/

set_option autoImplicit false

namespace Chip8

structure Machine (w h : Nat) where
  config : Config
  screen : Framebuffer w h
  memory : Memory
  registers : Vector UInt8 16
  index : UInt16
  pc : Nat
  stack : CallStack
  delay : Countdown
  sound : Countdown
  /-- The register that a key wait is to fill. -/
  wait : Option (Fin 16)
  /-- The keys that a wait last saw down, of which the lowest is the answer once all are up. -/
  latch : KeySet
  /-- The keys down at the latest cycle. -/
  keys : KeySet
  seed : UInt16
  clock : Nat
  fault : Option Fault
  deriving DecidableEq

namespace Machine

variable {w h : Nat}

def isOk (m : Machine w h) : Bool := m.fault.isNone

def isWaiting (m : Machine w h) : Bool := m.wait.isSome

def isSounding (m : Machine w h) : Bool := m.sound.isRunning

def capacity (m : Machine w h) : Nat := Memory.capacityOf m.memory.size

def register (m : Machine w h) (x : Fin 16) : UInt8 := m.registers[x]

/-- The register that instructions report a flag in. -/
def flag (m : Machine w h) : UInt8 := m.register (.last 15)

def setRegister (x : Fin 16) (value : UInt8) (m : Machine w h) : Machine w h :=
  { m with registers := m.registers.set x value }

def setFlag (value : UInt8) (m : Machine w h) : Machine w h :=
  m.setRegister (.last 15) value

def stop (fault : Fault) (m : Machine w h) : Machine w h := { m with fault := some fault }

theorem register_setRegister (x y : Fin 16) (value : UInt8) (m : Machine w h) :
    (m.setRegister x value).register y = if x = y then value else m.register y := by
  simp only [register, setRegister]
  by_cases same : x = y
  · subst same
    simp
  · have apart : x.val ≠ y.val := fun equal => same (Fin.ext equal)
    simp [same, apart]

end Machine

end Chip8
