import Chip8.Arithmetic

/-!
# Instructions

The instructions of the machine and how they are written in a 16-bit word.  The top
four bits of a word name its family.  Below them lie, as the family needs them, the
numbers of two registers, a four-bit count, a byte or a twelve-bit address.
-/

set_option autoImplicit false

namespace Chip8

inductive Condition where
  | byteEq (x : Fin 16) (byte : UInt8)
  | byteNe (x : Fin 16) (byte : UInt8)
  | registerEq (x y : Fin 16)
  | registerNe (x y : Fin 16)
  | keyDown (x : Fin 16)
  | keyUp (x : Fin 16)
  deriving DecidableEq

inductive Instruction where
  | clearScreen
  | ret
  /-- A call of machine code, of which only the address is known. -/
  | system (address : Nat)
  | jump (target : Nat)
  | call (target : Nat)
  | skip (condition : Condition)
  | setByte (x : Fin 16) (byte : UInt8)
  | addByte (x : Fin 16) (byte : UInt8)
  | combine (operation : Operation) (x y : Fin 16)
  | setIndex (address : UInt16)
  | jumpFrom (base : Nat)
  | random (x : Fin 16) (mask : UInt8)
  | draw (x y rows : Fin 16)
  | readDelay (x : Fin 16)
  | awaitKey (x : Fin 16)
  | setDelay (x : Fin 16)
  | setSound (x : Fin 16)
  | addIndex (x : Fin 16)
  | glyph (x : Fin 16)
  | decimal (x : Fin 16)
  | store (x : Fin 16)
  | load (x : Fin 16)
  deriving DecidableEq

namespace Instruction

def width : Nat := 2

/-! ## The fields of a word -/

def family (word : UInt16) : Nat := word.toNat / 4096

def fieldX (word : UInt16) : Fin 16 := Fin.ofNat 16 (word.toNat / 256)

def fieldY (word : UInt16) : Fin 16 := Fin.ofNat 16 (word.toNat / 16)

def fieldN (word : UInt16) : Fin 16 := Fin.ofNat 16 word.toNat

def fieldByte (word : UInt16) : UInt8 := UInt8.ofNat word.toNat

def fieldAddress (word : UInt16) : Nat := word.toNat % 4096

/-! ## Decoding -/

/-- Family 0: the screen, returns and machine code. -/
def ofSystemWord (word : UInt16) : Instruction :=
  if word = 0x00E0 then .clearScreen
  else if word = 0x00EE then .ret
  else .system word.toNat

/-- Family E: skips on keys. -/
def ofKeyWord? (word : UInt16) : Option Instruction :=
  if fieldByte word = 0x9E then some (.skip (.keyDown (fieldX word)))
  else if fieldByte word = 0xA1 then some (.skip (.keyUp (fieldX word)))
  else none

/-- Family F: timers, keys and memory, by the low byte. -/
def ofMiscWord? (word : UInt16) : Option Instruction :=
  let x := fieldX word
  match (fieldByte word).toNat with
  | 0x07 => some (.readDelay x)
  | 0x0A => some (.awaitKey x)
  | 0x15 => some (.setDelay x)
  | 0x18 => some (.setSound x)
  | 0x1E => some (.addIndex x)
  | 0x29 => some (.glyph x)
  | 0x33 => some (.decimal x)
  | 0x55 => some (.store x)
  | 0x65 => some (.load x)
  | _ => none

def decode? (word : UInt16) : Option Instruction :=
  let x := fieldX word
  let y := fieldY word
  match family word with
  | 0x0 => some (ofSystemWord word)
  | 0x1 => some (.jump (fieldAddress word))
  | 0x2 => some (.call (fieldAddress word))
  | 0x3 => some (.skip (.byteEq x (fieldByte word)))
  | 0x4 => some (.skip (.byteNe x (fieldByte word)))
  | 0x5 => if fieldN word = 0 then some (.skip (.registerEq x y)) else none
  | 0x6 => some (.setByte x (fieldByte word))
  | 0x7 => some (.addByte x (fieldByte word))
  | 0x8 => (Operation.ofCode? (fieldN word)).map fun operation => .combine operation x y
  | 0x9 => if fieldN word = 0 then some (.skip (.registerNe x y)) else none
  | 0xA => some (.setIndex (UInt16.ofNat (fieldAddress word)))
  | 0xB => some (.jumpFrom (fieldAddress word))
  | 0xC => some (.random x (fieldByte word))
  | 0xD => some (.draw x y (fieldN word))
  | 0xE => ofKeyWord? word
  | _ => ofMiscWord? word

end Instruction

end Chip8
