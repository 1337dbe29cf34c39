import Chip8.Memory

/-!
# Random bytes

Random bytes come from a 16-bit seed stirred with the bytes of the page of memory
that is being executed.  The seed also advances by one in every cycle, so the bytes
depend on when they are asked for.
-/

set_option autoImplicit false

namespace Chip8

namespace Random

def turnRight (byte : UInt8) : UInt8 := (byte >>> 1) ||| (byte <<< 7)

/-- The address stirred in: the low byte of the seed on the page of `pc`, wrapped
around at the end of memory. -/
def address (size pc : Nat) (seed : UInt16) : Nat :=
  (pc / 256 * 256 + seed.toNat % 256) % size

/-- A random byte and the seed that follows.  The seed is advanced first; its high
byte goes into the byte, and the byte takes that place in the new seed. -/
def next (seed : UInt16) (pc : Nat) (memory : Memory) : UInt8 × UInt16 :=
  let seed := seed + 1
  let mixed := memory.byte (address memory.size pc seed) + UInt8.ofNat (seed.toNat / 256)
  let value := mixed + turnRight mixed
  (value, UInt16.ofNat (value.toNat * 256 + seed.toNat % 256))

end Random

end Chip8
