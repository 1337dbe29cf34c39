import Chip8.Instruction
import Chip8.Machine.State
import Chip8.Random

/-!
# Carrying out an instruction

Three functions say what an instruction means to a machine whose program counter is
already past it: whether it is refused, what it costs, and what it does.  A refused
instruction does nothing; what it would do is of no interest.  An instruction that
reports a flag writes it last, over any other result.
-/

set_option autoImplicit false

namespace Chip8

namespace Machine

variable {w h : Nat}

def holds (m : Machine w h) : Condition → Bool
  | .byteEq x byte => m.register x == byte
  | .byteNe x byte => m.register x != byte
  | .registerEq x y => m.register x == m.register y
  | .registerNe x y => m.register x != m.register y
  | .keyDown x => m.keys.contains (m.register x).toNat
  | .keyUp x => !m.keys.contains (m.register x).toNat

/-! ## Refusal -/

/-- A block of memory at the index register is refused when it passes the end. -/
def blockRefusal? (m : Machine w h) (length : Nat) : Option Fault :=
  if m.memory.size < m.index.toNat + length then some .outOfBounds else none

/-- A sprite without rows, or on a display without pixels, draws nothing. -/
def drawsNothing (_ : Machine w h) (rows : Fin 16) : Bool := rows.val == 0 || w == 0 || h == 0

def refusal? (m : Machine w h) : Instruction → Option Fault
  | .ret => if m.stack.isEmpty then some .stackUnderflow else none
  | .call _ => if m.stack.isFull then some .stackOverflow else none
  | .system _ => if m.config.strict then some .unexpectedOpcode else none
  | .draw _ _ rows => if m.drawsNothing rows then none else m.blockRefusal? rows
  | .decimal _ => m.blockRefusal? 3
  | .store x => m.blockRefusal? (x + 1)
  | .load x => m.blockRefusal? (x + 1)
  | _ => none

/-! ## Cost -/

def skipCost : Condition → Nat
  | .byteEq _ _ | .byteNe _ _ => Cost.skipByte
  | .registerEq _ _ | .registerNe _ _ => Cost.skipRegister
  | .keyDown _ | .keyUp _ => Cost.skipKey

/-- The machine cycles that an instruction takes beyond fetching it. -/
def cost (m : Machine w h) : Instruction → Nat
  | .clearScreen => Cost.clearScreen
  | .ret => Cost.ret
  | .system _ => Cost.system
  | .jump _ => Cost.jump
  | .call _ => Cost.call
  | .skip condition => Cost.skip (skipCost condition) (m.holds condition)
  | .setByte _ _ => Cost.setByte
  | .addByte _ _ => Cost.addByte
  | .combine _ _ _ => Cost.arithmetic
  | .setIndex _ => Cost.setIndex
  | .jumpFrom _ => Cost.jumpFrom
  | .random _ _ => Cost.random
  | .draw _ _ rows => Cost.draw rows
  | .readDelay _ => Cost.readDelay
  | .awaitKey _ => Cost.awaitKey
  | .setDelay _ | .setSound _ => Cost.setTimer
  | .addIndex _ => Cost.addIndex
  | .glyph _ => Cost.glyph
  | .decimal _ => Cost.decimal
  | .store x | .load x => Cost.block (x + 1)

/-! ## Effect -/

/-- The sprite at the index register, placed at two registers' values.  A corner that
lies off the display comes back in on the opposite side. -/
def sprite (m : Machine w h) (x y rows : Fin 16) : Sprite where
  left := (m.register x).toNat % w
  top := (m.register y).toNat % h
  rows := m.memory.block m.index.toNat rows

/-- Draw a sprite; the flag says whether a lit pixel went dark. -/
def drawSprite (x y rows : Fin 16) (m : Machine w h) : Machine w h :=
  if m.drawsNothing rows then m.setFlag 0
  else
    let sprite := m.sprite x y rows
    let hit := m.screen.collides sprite
    { m with screen := m.screen.draw sprite }.setFlag (if hit then 1 else 0)

/-- Combine two registers into the first; the flag comes last. -/
def combine (operation : Operation) (x y : Fin 16) (m : Machine w h) : Machine w h :=
  let result := operation.apply m.config.shifts (m.register x) (m.register y)
  let m := m.setRegister x result.1
  match result.2 with
  | some flag => m.setFlag flag
  | none => m

def randomize (x : Fin 16) (mask : UInt8) (m : Machine w h) : Machine w h :=
  let drawn := Random.next m.seed m.pc m.memory
  { m with seed := drawn.2 }.setRegister x (drawn.1 &&& mask)

def decimalDigits (value : UInt8) : List UInt8 := [value / 100, value / 10 % 10, value % 10]

/-- The tone generator cannot sound for a single timer step. -/
def toneLength (value : UInt8) : UInt8 := if value = 1 then 0 else value

/-- Move the index past a block of the registers up to `x`. -/
def indexPast (m : Machine w h) (x : Fin 16) : UInt16 := m.index + UInt16.ofNat (x + 1)

/-- The effect of an instruction that is not refused. -/
def perform (m : Machine w h) : Instruction → Machine w h
  | .clearScreen => { m with screen := m.screen.clear }
  | .ret => { m with pc := m.stack.top?.getD m.pc, stack := m.stack.pop }
  | .system _ => m
  | .jump target => { m with pc := target }
  | .call target => { m with stack := m.stack.push m.pc, pc := target }
  | .skip condition =>
      if m.holds condition then { m with pc := m.pc + Instruction.width } else m
  | .setByte x byte => m.setRegister x byte
  | .addByte x byte => m.setRegister x (m.register x + byte)
  | .combine operation x y => m.combine operation x y
  | .setIndex address => { m with index := address }
  | .jumpFrom base => { m with pc := base + (m.register ⟨0, by decide⟩).toNat }
  | .random x mask => m.randomize x mask
  | .draw x y rows => m.drawSprite x y rows
  | .readDelay x => m.setRegister x m.delay.value
  | .awaitKey x => { m with wait := some x, latch := m.keys }
  | .setDelay x => { m with delay := .start (m.register x) m.clock }
  | .setSound x => { m with sound := .start (toneLength (m.register x)) m.clock }
  | .addIndex x => { m with index := m.index + (m.register x).toUInt16 }
  | .glyph x =>
      { m with
        index := UInt16.ofNat
          (Memory.fontStart + (m.register x).toNat % 16 * Memory.glyphHeight) }
  | .decimal x =>
      { m with memory := m.memory.write m.index.toNat (decimalDigits (m.register x)) }
  | .store x =>
      { m with
        memory := m.memory.write m.index.toNat (m.registers.toList.take (x + 1))
        index := m.indexPast x }
  | .load x =>
      { m with
        registers := Vector.ofFn fun k =>
          if k ≤ x then m.memory.byte (m.index.toNat + k) else m.register k
        index := m.indexPast x }

end Machine

end Chip8
