/-!
# Faults

The reasons for which a machine stops.  A fault is recorded once, by the load or
the cycle that meets it, and the machine stands still until a program has been
loaded again.
-/

set_option autoImplicit false

namespace Chip8

inductive Fault where
  /-- Nothing has been loaded, or the program is empty. -/
  | noProgram
  | programTooSmall
  /-- The program does not fit between its start and the end of memory. -/
  | programTooLarge
  | stackOverflow
  | stackUnderflow
  /-- A fetch, sprite or block transfer that reaches past the end of memory. -/
  | outOfBounds
  | unexpectedOpcode
  deriving DecidableEq

namespace Fault

/-- All faults: first those of a load, then those of a running machine. -/
def all : List Fault :=
  [.noProgram, .programTooSmall, .programTooLarge, .stackOverflow, .stackUnderflow,
    .outOfBounds, .unexpectedOpcode]

def isLoadFault : Fault → Bool
  | .noProgram | .programTooSmall | .programTooLarge => true
  | .stackOverflow | .stackUnderflow | .outOfBounds | .unexpectedOpcode => false

def message : Fault → String
  | .noProgram => "no program loaded"
  | .programTooSmall => "program is smaller than one instruction"
  | .programTooLarge => "program does not fit into memory"
  | .stackOverflow => "stack overflow"
  | .stackUnderflow => "stack underflow"
  | .outOfBounds => "memory access out of bounds"
  | .unexpectedOpcode => "unexpected opcode"

theorem mem_all (fault : Fault) : fault ∈ all := by
  cases fault <;> decide

end Fault

end Chip8
