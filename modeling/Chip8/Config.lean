/-!
# Configuration

What is chosen when a machine is built.  The most audible choice is the shift
profile: early machines shifted the second operand into the first, later ones
shift the first operand in place.
-/

set_option autoImplicit false

namespace Chip8

/-- The operand that a shift instruction shifts. -/
inductive ShiftProfile where
  /-- The second operand. -/
  | cosmac
  /-- The first operand. -/
  | modern
  deriving DecidableEq

namespace ShiftProfile

def operand (vx vy : UInt8) : ShiftProfile → UInt8
  | .cosmac => vy
  | .modern => vx

def shiftRight (profile : ShiftProfile) (vx vy : UInt8) : UInt8 × UInt8 :=
  let operand := profile.operand vx vy
  (operand >>> 1, operand &&& 1)

def shiftLeft (profile : ShiftProfile) (vx vy : UInt8) : UInt8 × UInt8 :=
  let operand := profile.operand vx vy
  (operand <<< 1, operand >>> 7)

structure UnknownName where
  name : String
  deriving DecidableEq

def UnknownName.message (unknown : UnknownName) : String :=
  "unknown ALU profile '" ++ unknown.name ++ "', expected 'original' or 'modern'"

/-- Reads a profile's name; letters of the Latin alphabet may have either case. -/
def ofName (name : String) : Except UnknownName ShiftProfile :=
  let lower := String.ofList (name.toList.map Char.toLower)
  if lower = "original" ∨ lower = "vip" ∨ lower = "cosmac" then .ok .cosmac
  else if lower = "modern" then .ok .modern
  else .error ⟨lower⟩

end ShiftProfile

structure Config where
  shifts : ShiftProfile := .modern
  memorySize : Nat := 0x1000
  /-- The seed of the random numbers, taken again at every load. -/
  seed : UInt16 := 0xC8C8
  /-- Whether a call of machine code is a fault; otherwise it does nothing. -/
  strict : Bool := false
  /-- Whether a key held during a key wait sounds the tone. -/
  keyTone : Bool := true
  deriving DecidableEq

namespace Config

/-- The least memory: the reserved page and one instruction. -/
def minMemory : Nat := 0x202

/-- The most memory that a twelve-bit address reaches. -/
def maxMemory : Nat := 0x1000

def supportedSize (size : Nat) : Nat := max minMemory (min size maxMemory)

def supported (config : Config) : Config :=
  { config with memorySize := supportedSize config.memorySize }

theorem supportedSize_bounds (size : Nat) :
    minMemory ≤ supportedSize size ∧ supportedSize size ≤ maxMemory := by
  simp only [supportedSize, minMemory, maxMemory]
  omega

theorem supportedSize_of_mem {size : Nat} (low : minMemory ≤ size) (high : size ≤ maxMemory) :
    supportedSize size = size := by
  simp only [supportedSize]
  omega

end Config

end Chip8
