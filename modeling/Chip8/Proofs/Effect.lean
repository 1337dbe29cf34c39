import Chip8.Machine.Execute

/-!
# The effect of an instruction, part by part

Carrying out an instruction is written instruction by instruction.  Here it is read
the other way: for each part of the machine, which instructions touch it and what
they make of it.  `Effect` has the parts that what holds of a whole run hangs on;
`FullEffect` adds the registers, memory contents, the index, the program counter and the
seed, and with them the whole machine is accounted for.
-/

set_option autoImplicit false

namespace Chip8.Machine

variable {w h : Nat}

def screenAfter (m : Machine w h) : Instruction → Framebuffer w h
  | .clearScreen => m.screen.clear
  | .draw x y rows =>
      if m.drawsNothing rows then m.screen else m.screen.draw (m.sprite x y rows)
  | _ => m.screen

def stackAfter (m : Machine w h) : Instruction → CallStack
  | .ret => m.stack.pop
  | .call _ => m.stack.push m.pc
  | _ => m.stack

def waitAfter (m : Machine w h) : Instruction → Option (Fin 16)
  | .awaitKey x => some x
  | _ => m.wait

def latchAfter (m : Machine w h) : Instruction → KeySet
  | .awaitKey _ => m.keys
  | _ => m.latch

def delayAfter (m : Machine w h) : Instruction → Countdown
  | .setDelay x => .start (m.register x) m.clock
  | _ => m.delay

def soundAfter (m : Machine w h) : Instruction → Countdown
  | .setSound x => .start (toneLength (m.register x)) m.clock
  | _ => m.sound

structure Effect (before : Machine w h) (instruction : Instruction) (after : Machine w h) :
    Prop where
  config : after.config = before.config
  size : after.memory.size = before.memory.size
  keys : after.keys = before.keys
  clock : after.clock = before.clock
  fault : after.fault = before.fault
  screen : after.screen = before.screenAfter instruction
  stack : after.stack = before.stackAfter instruction
  wait : after.wait = before.waitAfter instruction
  latch : after.latch = before.latchAfter instruction
  delay : after.delay = before.delayAfter instruction
  sound : after.sound = before.soundAfter instruction

theorem combine_eq (operation : Operation) (x y : Fin 16) (m : Machine w h) :
    ∃ registers, m.combine operation x y = { m with registers } := by
  simp only [combine]
  split
  · exact ⟨_, rfl⟩
  · exact ⟨_, rfl⟩

theorem drawSprite_eq (x y rows : Fin 16) (m : Machine w h) :
    ∃ registers, m.drawSprite x y rows =
      { m with
        screen := if m.drawsNothing rows then m.screen else m.screen.draw (m.sprite x y rows)
        registers } := by
  simp only [drawSprite]
  split
  · exact ⟨_, rfl⟩
  · exact ⟨_, rfl⟩

theorem perform_effect (m : Machine w h) (instruction : Instruction) :
    Effect m instruction (m.perform instruction) := by
  cases instruction with
  | skip condition =>
      simp only [perform]
      split <;> exact ⟨rfl, rfl, rfl, rfl, rfl, rfl, rfl, rfl, rfl, rfl, rfl⟩
  | combine operation x y =>
      obtain ⟨registers, combined⟩ := m.combine_eq operation x y
      simp only [perform, combined]
      exact ⟨rfl, rfl, rfl, rfl, rfl, rfl, rfl, rfl, rfl, rfl, rfl⟩
  | draw x y rows =>
      obtain ⟨registers, drawn⟩ := m.drawSprite_eq x y rows
      simp only [perform, drawn]
      exact ⟨rfl, rfl, rfl, rfl, rfl, rfl, rfl, rfl, rfl, rfl, rfl⟩
  | _ =>
      constructor <;>
        simp only [perform, setRegister, randomize, Memory.size_write, screenAfter, stackAfter,
          waitAfter, latchAfter, delayAfter, soundAfter]

/-! ## The parts that change all the time -/

/-- The value of register `y` after an instruction.  A flag is written last, so it is what
register F holds even if F is also the first operand. -/
def registerAfter (m : Machine w h) (instruction : Instruction) (y : Fin 16) : UInt8 :=
  match instruction with
  | .setByte x byte => if y = x then byte else m.register y
  | .addByte x byte => if y = x then m.register x + byte else m.register y
  | .combine operation x z =>
      let result := operation.apply m.config.shifts (m.register x) (m.register z)
      if y = .last 15 ∧ result.2.isSome then result.2.getD 0
      else if y = x then result.1
      else m.register y
  | .random x mask =>
      if y = x then (Random.next m.seed m.pc m.memory).1 &&& mask else m.register y
  | .draw x z rows =>
      if y = .last 15 then
        if !m.drawsNothing rows && m.screen.collides (m.sprite x z rows) then 1 else 0
      else m.register y
  | .readDelay x => if y = x then m.delay.value else m.register y
  | .load x => if y ≤ x then m.memory.byte (m.index.toNat + y) else m.register y
  | _ => m.register y

def memoryAfter (m : Machine w h) : Instruction → Memory
  | .decimal x => m.memory.write m.index.toNat (decimalDigits (m.register x))
  | .store x => m.memory.write m.index.toNat (m.registers.toList.take (x + 1))
  | _ => m.memory

def indexAfter (m : Machine w h) : Instruction → UInt16
  | .setIndex address => address
  | .addIndex x => m.index + (m.register x).toUInt16
  | .glyph x =>
      UInt16.ofNat (Memory.fontStart + (m.register x).toNat % 16 * Memory.glyphHeight)
  | .store x | .load x => m.indexPast x
  | _ => m.index

/-- The value of register 0, which a jump from a base adds to it. -/
def jumpOffset (m : Machine w h) : Nat := (m.registers[0]?.getD 0).toNat

theorem toNat_register_zero (m : Machine w h) :
    (m.register ⟨0, by decide⟩).toNat = m.jumpOffset := by
  simp [register, jumpOffset]

/-- The program counter after an instruction, from a machine whose program counter is already
past it. -/
def pcAfter (m : Machine w h) : Instruction → Nat
  | .ret => m.stack.top?.getD m.pc
  | .jump target | .call target => target
  | .skip condition => if m.holds condition then m.pc + Instruction.width else m.pc
  | .jumpFrom base => base + m.jumpOffset
  | _ => m.pc

def seedAfter (m : Machine w h) : Instruction → UInt16
  | .random _ _ => (Random.next m.seed m.pc m.memory).2
  | _ => m.seed

structure FullEffect (before : Machine w h) (instruction : Instruction) (after : Machine w h) :
    Prop extends Effect before instruction after where
  registers : ∀ y, after.register y = before.registerAfter instruction y
  memory : after.memory = before.memoryAfter instruction
  index : after.index = before.indexAfter instruction
  pc : after.pc = before.pcAfter instruction
  seed : after.seed = before.seedAfter instruction

theorem register_setFlag (y : Fin 16) (value : UInt8) (m : Machine w h) :
    (m.setFlag value).register y = if y = .last 15 then value else m.register y := by
  simp only [setFlag, register_setRegister, eq_comm]

theorem register_combine (operation : Operation) (x z y : Fin 16) (m : Machine w h) :
    (m.combine operation x z).register y = m.registerAfter (.combine operation x z) y := by
  simp only [combine, registerAfter]
  cases (operation.apply m.config.shifts (m.register x) (m.register z)).2 with
  | none => simp [register_setRegister, eq_comm]
  | some flag => simp [register_setFlag, register_setRegister, eq_comm]

theorem register_drawSprite (x z rows y : Fin 16) (m : Machine w h) :
    (m.drawSprite x z rows).register y = m.registerAfter (.draw x z rows) y := by
  simp only [drawSprite, registerAfter]
  split
  · rename_i blank
    simp [register_setFlag, blank]
  · rename_i some
    simp only [register_setFlag, Bool.eq_false_iff.mpr some, Bool.not_false, Bool.true_and]
    rfl

theorem register_perform (m : Machine w h) (instruction : Instruction) (y : Fin 16) :
    (m.perform instruction).register y = m.registerAfter instruction y := by
  cases instruction with
  | skip condition =>
      simp only [perform]
      split <;> rfl
  | combine operation x z => exact register_combine operation x z y m
  | draw x z rows => exact register_drawSprite x z rows y m
  | setByte x byte | addByte x byte | readDelay x =>
      simp only [perform, registerAfter, register_setRegister, eq_comm]
  | random x mask =>
      simp only [perform, randomize, registerAfter, register_setRegister, eq_comm]
      rfl
  | load x => simp [perform, registerAfter, register]
  | _ => rfl

theorem perform_fullEffect (m : Machine w h) (instruction : Instruction) :
    FullEffect m instruction (m.perform instruction) := by
  refine ⟨m.perform_effect instruction, m.register_perform instruction, ?_, ?_, ?_, ?_⟩ <;>
  · cases instruction with
    | skip condition =>
        simp only [perform, pcAfter]
        split <;> rfl
    | combine operation x y =>
        obtain ⟨registers, combined⟩ := m.combine_eq operation x y
        simp only [perform, combined]
        rfl
    | draw x y rows =>
        obtain ⟨registers, drawn⟩ := m.drawSprite_eq x y rows
        simp only [perform, drawn]
        rfl
    -- Left to computation, these would first be compared as whole machines.
    | _ =>
        simp only [perform, randomize, setRegister, toNat_register_zero, memoryAfter, indexAfter,
          pcAfter, seedAfter]

end Chip8.Machine
