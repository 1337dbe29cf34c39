import Chip8.Config

/-!
# Arithmetic on registers

The operations that combine two registers.  Some also answer a flag, which is one or
zero: the carry of a sum, the missing borrow of a difference, the bit that a shift
drops.
-/

set_option autoImplicit false

namespace Chip8

def addWithCarry (a b : UInt8) : UInt8 × UInt8 :=
  (a + b, if a.toNat + b.toNat < 256 then 0 else 1)

/-- The difference of two bytes and whether it needed no borrow. -/
def subtractWithoutBorrow (a b : UInt8) : UInt8 × UInt8 :=
  (a - b, if b ≤ a then 1 else 0)

inductive Operation where
  | copy
  | bitOr
  | bitAnd
  | bitXor
  | add
  | subtract
  | shiftRight
  | subtractFrom
  | shiftLeft
  deriving DecidableEq

namespace Operation

def ofCode? : Nat → Option Operation
  | 0x0 => some copy
  | 0x1 => some bitOr
  | 0x2 => some bitAnd
  | 0x3 => some bitXor
  | 0x4 => some add
  | 0x5 => some subtract
  | 0x6 => some shiftRight
  | 0x7 => some subtractFrom
  | 0xE => some shiftLeft
  | _ => none

def apply (shifts : ShiftProfile) (vx vy : UInt8) : Operation → UInt8 × Option UInt8
  | copy => (vy, none)
  | bitOr => (vx ||| vy, none)
  | bitAnd => (vx &&& vy, none)
  | bitXor => (vx ^^^ vy, none)
  | add => flagged (addWithCarry vx vy)
  | subtract => flagged (subtractWithoutBorrow vx vy)
  | shiftRight => flagged (shifts.shiftRight vx vy)
  | subtractFrom => flagged (subtractWithoutBorrow vy vx)
  | shiftLeft => flagged (shifts.shiftLeft vx vy)
where
  flagged (result : UInt8 × UInt8) : UInt8 × Option UInt8 := (result.1, some result.2)

end Operation

end Chip8
