import Chip8.Machine.State

/-!
# Loading a program

A load starts the machine over.  Nothing but the configuration outlives it: memory
is made anew, the registers, the call stack, the timers and the clock begin at zero,
the screen is dark and wholly marked as changed.  A program that is refused leaves
its space in memory zero and the machine stopped.  The outcome is answered beside the
machine, which records the same one as its fault.
-/

set_option autoImplicit false

namespace Chip8

def loadRefusal? (capacity : Nat) (program : List UInt8) : Option Fault :=
  if program.length = 0 then some .noProgram
  else if program.length < 2 then some .programTooSmall
  else if capacity < program.length then some .programTooLarge
  else none

/-- What is answered to whoever loads a program. -/
def loadOutcome (capacity : Nat) (program : List UInt8) : Except Fault Unit :=
  match loadRefusal? capacity program with
  | some fault => .error fault
  | none => .ok ()

theorem loadOutcome_eq_error_iff {capacity : Nat} {program : List UInt8} {fault : Fault} :
    loadOutcome capacity program = .error fault ↔ loadRefusal? capacity program = some fault := by
  unfold loadOutcome
  split <;> simp [*]

theorem loadOutcome_eq_ok_iff {capacity : Nat} {program : List UInt8} :
    loadOutcome capacity program = .ok () ↔ loadRefusal? capacity program = none := by
  unfold loadOutcome
  split <;> simp [*]

namespace Machine

variable {w h : Nat}

def boot (config : Config) (screen : Framebuffer w h) (program : List UInt8) : Machine w h :=
  let refusal := loadRefusal? (Memory.capacityOf config.memorySize) program
  { config
    screen := screen.clear
    memory := Memory.image config.memorySize (if refusal.isNone then program else [])
    registers := Vector.replicate 16 0
    index := 0
    pc := Memory.programStart
    stack := .empty
    delay := .idle
    sound := .idle
    wait := none
    latch := ∅
    keys := ∅
    seed := config.seed
    clock := 0
    fault := refusal }

/-- A new machine, stopped because nothing has been loaded. -/
def new (config : Config) : Machine w h := boot config.supported .blank []

def load (program : List UInt8) (m : Machine w h) : Machine w h × Except Fault Unit :=
  (boot m.config m.screen program, loadOutcome (Memory.capacityOf m.config.memorySize) program)

/-- What a load answers is what the machine records. -/
theorem load_eq_error_iff {program : List UInt8} {m : Machine w h} {fault : Fault} :
    (m.load program).2 = .error fault ↔ (m.load program).1.fault = some fault :=
  loadOutcome_eq_error_iff

theorem load_eq_ok_iff {program : List UInt8} {m : Machine w h} :
    (m.load program).2 = .ok () ↔ (m.load program).1.fault = none :=
  loadOutcome_eq_ok_iff

end Machine

end Chip8
