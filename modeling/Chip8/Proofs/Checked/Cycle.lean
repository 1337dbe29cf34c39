import Chip8.Machine.Load
import Chip8.Proofs.Checked.Picture
import Chip8.Proofs.WellFormed

/-!
# The checked machine

Instructions, cycles and loads out of checked parts.  Registers are named by plain
numbers here and looked up in their array; the program counter is a word of sixteen
bits, the clock one of sixty-four, a cost one of thirty-two.  What makes all of it
answer is `Sound`, and an instruction has to be one that a word can hold.
-/

set_option autoImplicit false

namespace Chip8

namespace Checked

variable {w h : Nat}

/-! ## Registers -/

def register (x : Nat) (m : Machine w h) : Option UInt8 := m.registers[x]?

def setRegister (x : Nat) (value : UInt8) (m : Machine w h) : Option (Machine w h) :=
  if _ : x < 16 then some { m with registers := m.registers.set x value } else none

def registersTo (x : Nat) (m : Machine w h) : Option (List UInt8) :=
  if x < m.registers.size then some (m.registers.toList.take (x + 1)) else none

def setRegistersTo (x : Nat) (bytes : List UInt8) (m : Machine w h) : Option (Machine w h) :=
  if x < m.registers.size ∧ bytes.length = x + 1 then
    some { m with registers := Vector.ofFn fun k => if k ≤ x then bytes.getD k 0 else m.register k }
  else
    none

/-! ## Instructions -/

def holds (m : Machine w h) : Condition → Option Bool
  | .byteEq x byte => return (← register x m) == byte
  | .byteNe x byte => return (← register x m) != byte
  | .registerEq x y => return (← register x m) == (← register y m)
  | .registerNe x y => return (← register x m) != (← register y m)
  | .keyDown x => return m.keys.contains (← register x m).toNat
  | .keyUp x => return !m.keys.contains (← register x m).toNat

def blockEnd (m : Machine w h) (length : Nat) : Option Nat := add 64 m.index.toNat length

def blockRefusal (m : Machine w h) (length : Nat) : Option (Option Fault) := do
  let stop ← blockEnd m length
  return if m.memory.size < stop then some .outOfBounds else none

/-- Why an instruction is refused, if it is; the outer option is the check. -/
def refusal (m : Machine w h) : Instruction → Option (Option Fault)
  | .draw _ _ rows => if m.drawsNothing rows then return none else blockRefusal m rows
  | .decimal _ => blockRefusal m 3
  | .store x | .load x => blockRefusal m (x + 1)
  | instruction => return m.refusal? instruction

def sprite (m : Machine w h) (x y rows : Nat) : Option Sprite := do
  let stop ← blockEnd m rows
  let bytes ← slice m.memory m.index.toNat stop
  let left ← rem (← register x m).toNat w
  let top ← rem (← register y m).toNat h
  return ⟨left, top, bytes⟩

def drawSprite (x y rows : Fin 16) (m : Machine w h) : Option (Machine w h) := do
  if m.drawsNothing rows then setRegister 15 0 m
  else
    let sprite ← sprite m x y rows
    let (screen, hit) ← draw sprite m.screen
    setRegister 15 (if hit then 1 else 0) { m with screen }

def combine (operation : Operation) (x y : Nat) (m : Machine w h) : Option (Machine w h) := do
  let result := operation.apply m.config.shifts (← register x m) (← register y m)
  let m ← setRegister x result.1 m
  match result.2 with
  | some flag => setRegister 15 flag m
  | none => return m

def perform (m : Machine w h) : Instruction → Option (Machine w h)
  | .clearScreen => return { m with screen := ← clear m.screen }
  | .ret => do
      let (pc, stack) ← pop m.stack
      return { m with pc, stack }
  | .system _ => return m
  | .jump target => return { m with pc := target }
  | .call target => return { m with stack := ← push m.stack m.pc, pc := target }
  | .skip condition => do
      if ← holds m condition then return { m with pc := ← add 16 m.pc Instruction.width }
      else return m
  | .setByte x byte => setRegister x byte m
  | .addByte x byte => do setRegister x ((← register x m) + byte) m
  | .combine operation x y => combine operation x y m
  | .setIndex address => return { m with index := address }
  | .jumpFrom base => return { m with pc := ← add 16 base (← register 0 m).toNat }
  | .random x mask => do
      let (value, seed) ← random m.seed m.pc m.memory
      setRegister x (value &&& mask) { m with seed }
  | .draw x y rows => drawSprite x y rows m
  | .readDelay x => setRegister x m.delay.value m
  | .awaitKey x => return { m with wait := some x, latch := m.keys }
  | .setDelay x => return { m with delay := ← start (← register x m) m.clock }
  | .setSound x => return { m with sound := ← start (Machine.toneLength (← register x m)) m.clock }
  | .addIndex x => return { m with index := m.index + (← register x m).toUInt16 }
  | .glyph x => do
      let address ← add 16 Memory.fontStart ((← register x m).toNat % 16 * Memory.glyphHeight)
      return { m with index := UInt16.ofNat address }
  | .decimal x => do
      let stop ← blockEnd m 3
      let digits := Machine.decimalDigits (← register x m)
      return { m with memory := ← splice m.memory m.index.toNat stop digits }
  | .store x => do
      let stop ← blockEnd m (x + 1)
      let bytes ← registersTo x m
      let past ← add 16 x 1
      return { m with
        memory := ← splice m.memory m.index.toNat stop bytes
        index := m.index + UInt16.ofNat past }
  | .load x => do
      let stop ← blockEnd m (x + 1)
      let m ← setRegistersTo x (← slice m.memory m.index.toNat stop) m
      let past ← add 16 x 1
      return { m with index := m.index + UInt16.ofNat past }

/-! ## Cycles -/

def execute (word : UInt16) (m : Machine w h) : Option (Machine w h × Nat) :=
  match Instruction.decode? word with
  | none => return (m.stop .unexpectedOpcode, 0)
  | some instruction => do
      match ← refusal m instruction with
      | some fault => return (m.stop fault, 0)
      | none =>
          let machineCycles ← fit 32 (m.cost instruction)
          let after ← perform m instruction
          return after.checked machineCycles

/-- The word at the program counter is fetched, the counter moved past it, and the place
that the word came from taken back from the counter for the trace. -/
def step (m : Machine w h) : Option (Machine w h × Nat) := do
  let stop ← add 64 m.pc Instruction.width
  if stop ≤ m.memory.size then
    let bytes ← slice m.memory m.pc stop
    let word := (← bytes[0]?).toUInt16 * 256 + (← bytes[1]?).toUInt16
    let pc ← add 16 m.pc Instruction.width
    let _place ← sub pc Instruction.width
    execute word { m with pc }
  else
    return (m.stop .outOfBounds, 0)

def poll (x : Fin 16) (m : Machine w h) : Option (Machine w h) :=
  if m.keys.isEmpty then
    match m.latch.lowest? with
    | some key => setRegister x (UInt8.ofNat key) { m with wait := none, latch := ∅ }
    | none => return m
  else
    let m := { m with latch := m.keys }
    if m.config.keyTone then
      return { m with sound := ← sustain Machine.keyToneLength m.clock m.sound }
    else
      return m

def elapse (machineCycles : Nat) (m : Machine w h) : Option (Machine w h × Nat) := do
  let cost ← fit 32 (Cost.clocks machineCycles)
  let now ← add 64 m.clock cost
  let delay ← refresh now m.delay
  let sound ← refresh now m.sound
  return ({ m with seed := m.seed + 1, clock := now, delay, sound }, cost)

def cycle (keys : KeySet) (m : Machine w h) : Option (Machine w h × Nat) :=
  if m.isOk then
    let m := { m with keys }
    match m.wait with
    | some x => do elapse Cost.keyPoll (← poll x m)
    | none => do
        let done ← step m
        elapse (← add 32 Cost.fetch done.2) done.1
  else
    return (m, 0)

/-! ## Loads -/

def boot (config : Config) (screen : Framebuffer w h) (program : List UInt8) :
    Option (Machine w h) := do
  let capacity ← sub config.memorySize Memory.programStart
  let refusal := loadRefusal? capacity program
  let memory ← image config.memorySize (if refusal.isNone then program else [])
  let _free ← if refusal.isNone then sub capacity program.length else some 0
  return {
    config
    screen := ← clear screen
    memory
    registers := Vector.replicate 16 0
    index := 0
    pc := Memory.programStart
    stack := .empty
    delay := .idle
    sound := .idle
    wait := none
    latch := ∅
    keys := ∅
    seed := config.seed
    clock := 0
    fault := refusal }

/-! ## Where the checks are passed -/

/-- What every operation of a machine needs to be answered. -/
structure Sound (m : Machine w h) : Prop where
  display : Countable w h
  screen : m.screen.MarksInside
  least : 0 < m.memory.size
  most : m.memory.size ≤ Config.maxMemory
  pc : m.pc ≤ m.memory.size
  stack : m.stack.pointer ≤ 32
  clock : m.clock < 2 ^ 63

theorem Sound.timerPeriod {m : Machine w h} (sound : Sound m) :
    m.clock + Cost.timerPeriod < 2 ^ 64 := by
  have early := sound.clock
  rw [Cost.timerPeriod_eq]
  omega

theorem Sound.next {m : Machine w h} (sound : Sound m) :
    m.pc + Instruction.width < 2 ^ 16 := by
  have pc := Nat.le_trans sound.pc sound.most
  simp only [Config.maxMemory, Instruction.width] at pc ⊢
  omega

@[simp] theorem register_eq (x : Fin 16) (m : Machine w h) :
    register x m = some (m.register x) := by
  simp [register, Machine.register]

theorem setRegister_eq (x : Fin 16) (value : UInt8) (m : Machine w h) :
    setRegister x value m = some (m.setRegister x value) := by
  simp [setRegister, Machine.setRegister]

theorem setFlag_eq (value : UInt8) (m : Machine w h) :
    setRegister 15 value m = some (m.setFlag value) := setRegister_eq 15 value m

theorem holds_eq (m : Machine w h) (condition : Condition) :
    holds m condition = some (m.holds condition) := by
  cases condition <;> simp [holds, Machine.holds]

theorem blockEnd_eq (m : Machine w h) {length : Nat} (short : length ≤ 16) :
    blockEnd m length = some (m.index.toNat + length) := by
  have word := m.index.toNat_lt
  apply add_eq
  omega

theorem blockRefusal_eq (m : Machine w h) {length : Nat} (short : length ≤ 16) :
    blockRefusal m length = some (m.blockRefusal? length) := by
  simp [blockRefusal, blockEnd_eq m short, Machine.blockRefusal?]

theorem refusal_eq (m : Machine w h) (instruction : Instruction) :
    refusal m instruction = some (m.refusal? instruction) := by
  cases instruction with
  | draw x y rows =>
      have short : rows.val ≤ 16 := Nat.le_of_lt rows.isLt
      simp only [refusal, Machine.refusal?, blockRefusal_eq m short]
      split <;> rfl
  | decimal x => exact blockRefusal_eq m (by decide)
  | store x | load x => exact blockRefusal_eq m x.isLt
  | _ => rfl

/-- A block that is not refused lies in memory. -/
theorem block_inside {m : Machine w h} {length : Nat} (accepted : m.blockRefusal? length = none) :
    m.index.toNat + length ≤ m.memory.size := by
  simpa [Machine.blockRefusal?] using accepted

theorem display_pos {m : Machine w h} {rows : Fin 16} (drawn : m.drawsNothing rows = false) :
    0 < w ∧ 0 < h := by
  simp only [Machine.drawsNothing, Bool.or_eq_false_iff, beq_eq_false_iff_ne] at drawn
  exact ⟨Nat.pos_of_ne_zero drawn.1.2, Nat.pos_of_ne_zero drawn.2⟩

theorem sprite_eq {m : Machine w h} {rows : Fin 16} (drawn : m.drawsNothing rows = false)
    (accepted : m.blockRefusal? rows = none) (x y : Fin 16) :
    sprite m x y rows = some (m.sprite x y rows) := by
  obtain ⟨wide, high⟩ := display_pos drawn
  have short : rows.val ≤ 16 := Nat.le_of_lt rows.isLt
  simp [sprite, blockEnd_eq m short, slice_eq (block_inside accepted), rem_eq wide, rem_eq high,
    Machine.sprite]

theorem drawSprite_eq {m : Machine w h} (sound : Sound m) {x y rows : Fin 16}
    (accepted : m.refusal? (.draw x y rows) = none) :
    drawSprite x y rows m = some (m.drawSprite x y rows) := by
  unfold drawSprite Machine.drawSprite
  cases nothing : m.drawsNothing rows with
  | true => simp [setFlag_eq]
  | false =>
      have fits : m.blockRefusal? rows = none := by
        simpa [Machine.refusal?, nothing] using accepted
      obtain ⟨wide, high⟩ := display_pos nothing
      have inside : (m.sprite x y rows).left < w := Nat.mod_lt _ wide
      have below : (m.sprite x y rows).top < h := Nat.mod_lt _ high
      simp [sprite_eq nothing fits, draw_eq sound.display sound.screen inside below, setFlag_eq]

theorem combine_eq (operation : Operation) (x y : Fin 16) (m : Machine w h) :
    combine operation x y m = some (m.combine operation x y) := by
  simp only [combine, Machine.combine, register_eq, setRegister_eq, Option.bind_eq_bind,
    Option.bind_some]
  cases flagged : (operation.apply m.config.shifts (m.register x) (m.register y)).2 with
  | some flag => simp [setFlag_eq]
  | none => simp

theorem setRegistersTo_eq (x : Fin 16) (m : Machine w h) :
    setRegistersTo x (m.memory.block m.index.toNat (x + 1)) m =
      some { m with
        registers := Vector.ofFn fun k =>
          if k ≤ x then m.memory.byte (m.index.toNat + k) else m.register k } := by
  have length : (m.memory.block m.index.toNat (x + 1)).length = x + 1 := by simp [Memory.block]
  have copied : ∀ k : Fin 16,
      (if k.val ≤ x.val then (m.memory.block m.index.toNat (x + 1)).getD k 0 else m.register k) =
        if k ≤ x then m.memory.byte (m.index.toNat + k) else m.register k := by
    intro k
    by_cases loaded : k.val ≤ x.val
    · have here := Memory.getElem?_block m.memory m.index.toNat (Nat.lt_succ_of_le loaded)
      rw [if_pos loaded, if_pos (Fin.le_def.mpr loaded), List.getD_eq_getElem?_getD, here,
        Option.getD_some]
    · have spared : ¬ k ≤ x := loaded
      rw [if_neg loaded, if_neg spared]
  simp only [setRegistersTo, copied, length, Vector.size, x.isLt, and_self, if_true]

/-- An instruction that a word can hold: its addresses have twelve bits. -/
def Short : Instruction → Prop
  | .jumpFrom base => base < 4096
  | _ => True

theorem perform_eq {m : Machine w h} (sound : Sound m) {instruction : Instruction}
    (short : Short instruction) (accepted : m.refusal? instruction = none) :
    perform m instruction = some (m.perform instruction) := by
  have period := sound.timerPeriod
  cases instruction with
  | clearScreen => simp [perform, Machine.perform, clear_eq sound.display sound.screen]
  | ret => simp [perform, Machine.perform, pop_eq (Machine.isEmpty_of_accepted accepted) m.pc]
  | call target =>
      have room := Machine.isFull_of_accepted target accepted
      simp [perform, Machine.perform, push_eq sound.stack room]
  | skip condition =>
      have next := sound.next
      simp only [perform, Machine.perform, holds_eq, add_eq next, Option.bind_eq_bind,
        Option.bind_some]
      split <;> rfl
  | setByte x byte => exact setRegister_eq x byte m
  | addByte x byte => simp [perform, Machine.perform, setRegister_eq]
  | combine operation x y => exact combine_eq operation x y m
  | jumpFrom base =>
      have twelve : base < 4096 := short
      have byte := (m.register 0).toNat_lt
      have target : base + (m.register 0).toNat < 2 ^ 16 := by omega
      have first : register 0 m = some (m.register 0) := register_eq 0 m
      simp [perform, Machine.perform, first, add_eq target]
  | random x mask =>
      simp [perform, Machine.perform, Machine.randomize, random_eq sound.least, setRegister_eq]
  | draw x y rows => exact drawSprite_eq sound accepted
  | readDelay x => exact setRegister_eq x m.delay.value m
  | setDelay x => simp [perform, Machine.perform, start_eq period]
  | setSound x => simp [perform, Machine.perform, start_eq period]
  | addIndex x => simp [perform, Machine.perform]
  | glyph x =>
      have address : Memory.fontStart + (m.register x).toNat % 16 * Memory.glyphHeight < 2 ^ 16 := by
        simp only [Memory.fontStart, Memory.glyphHeight]
        omega
      simp [perform, Machine.perform, add_eq address]
  | decimal x =>
      have fits : m.blockRefusal? 3 = none := accepted
      have copied : splice m.memory m.index.toNat (m.index.toNat + 3)
          (Machine.decimalDigits (m.register x)) =
            some (m.memory.write m.index.toNat (Machine.decimalDigits (m.register x))) :=
        splice_eq rfl (block_inside fits)
      simp [perform, Machine.perform, blockEnd_eq m (show 3 ≤ 16 by decide), copied]
  | store x =>
      have fits : m.blockRefusal? (x + 1) = none := accepted
      have few : x.val + 1 ≤ 16 := x.isLt
      have word : x.val + 1 < 2 ^ 16 := by omega
      have length : (m.registers.toList.take (x + 1)).length = x + 1 := by
        rw [List.length_take, Vector.length_toList]
        omega
      have copied : splice m.memory m.index.toNat (m.index.toNat + (x + 1))
          (m.registers.toList.take (x + 1)) =
            some (m.memory.write m.index.toNat (m.registers.toList.take (x + 1))) :=
        splice_eq (length.symm ▸ rfl) (block_inside fits)
      simp [perform, Machine.perform, Machine.indexPast, blockEnd_eq m few, registersTo, copied,
        add_eq word]
  | load x =>
      have fits : m.blockRefusal? (x + 1) = none := accepted
      have few : x.val + 1 ≤ 16 := x.isLt
      have word : x.val + 1 < 2 ^ 16 := by omega
      simp [perform, Machine.perform, Machine.indexPast, blockEnd_eq m few,
        slice_eq (block_inside fits), setRegistersTo_eq, add_eq word]
  | _ => rfl

theorem short_ofSystemWord (word : UInt16) : Short (Instruction.ofSystemWord word) := by
  unfold Instruction.ofSystemWord
  split
  · trivial
  · split <;> trivial

theorem short_of_keyWord {word : UInt16} {instruction : Instruction}
    (decoded : Instruction.ofKeyWord? word = some instruction) : Short instruction := by
  unfold Instruction.ofKeyWord? at decoded
  split at decoded
  · cases decoded
    trivial
  · split at decoded <;> cases decoded
    trivial

theorem short_of_miscWord {word : UInt16} {instruction : Instruction}
    (decoded : Instruction.ofMiscWord? word = some instruction) : Short instruction := by
  unfold Instruction.ofMiscWord? at decoded
  dsimp only at decoded
  split at decoded <;> cases decoded <;> trivial

theorem short_of_decode? {word : UInt16} {instruction : Instruction}
    (decoded : Instruction.decode? word = some instruction) : Short instruction := by
  have twelve : Instruction.fieldAddress word < 4096 := Nat.mod_lt _ (by decide)
  unfold Instruction.decode? at decoded
  dsimp only at decoded
  split at decoded
  case h_1 =>
    cases decoded
    exact short_ofSystemWord word
  case h_6 | h_10 =>
    split at decoded <;> cases decoded
    trivial
  case h_9 =>
    obtain ⟨operation, _, rfl⟩ := Option.map_eq_some_iff.mp decoded
    trivial
  case h_12 =>
    cases decoded
    exact twelve
  case h_15 => exact short_of_keyWord decoded
  case h_16 => exact short_of_miscWord decoded
  all_goals
    cases decoded
    trivial

theorem execute_eq {m : Machine w h} (sound : Sound m) (word : UInt16) :
    execute word m = some (m.execute word) := by
  unfold execute Machine.execute
  cases decoded : Instruction.decode? word with
  | none => rfl
  | some instruction =>
      cases refused : m.refusal? instruction with
      | some fault => simp [refusal_eq, refused]
      | none =>
          have dear : m.cost instruction < 2 ^ 32 :=
            Nat.lt_of_le_of_lt (Machine.cost_le_clearScreen m instruction) (by decide)
          simp [refusal_eq, refused, fit_eq dear,
            perform_eq sound (short_of_decode? decoded) refused]

theorem step_eq {m : Machine w h} (sound : Sound m) : step m = some m.step := by
  have next := sound.next
  have stop : m.pc + Instruction.width < 2 ^ 64 := by omega
  unfold step Machine.step Machine.fetch?
  by_cases inside : m.pc + Instruction.width ≤ m.memory.size
  · have high := Memory.getElem?_block m.memory m.pc (show 0 < Instruction.width by decide)
    have low := Memory.getElem?_block m.memory m.pc (show 1 < Instruction.width by decide)
    have back : Instruction.width ≤ m.pc + Instruction.width := Nat.le_add_left _ _
    have advanced : Sound { m with pc := m.pc + Instruction.width } :=
      { sound with pc := inside }
    simp [add_eq stop, inside, slice_eq inside, high, low, add_eq next, sub_eq back,
      execute_eq advanced]
  · simp [add_eq stop, inside]

theorem poll_eq {m : Machine w h} (early : m.clock < 2 ^ 63) (x : Fin 16) :
    poll x m = some (m.poll x) := by
  have period : m.clock + Cost.timerPeriod < 2 ^ 64 := by
    rw [Cost.timerPeriod_eq]
    omega
  unfold poll Machine.poll
  split
  · cases latched : m.latch.lowest? with
    | some key => exact setRegister_eq _ _ _
    | none => rfl
  · simp only [sustain_eq period]
    split <;> rfl

theorem elapse_eq {m : Machine w h} {machineCycles : Nat}
    (cheap : machineCycles ≤ Cost.fetch + Cost.clearScreen) (early : m.clock < 2 ^ 63)
    (timely : m.Timely) : elapse machineCycles m = some (m.elapse machineCycles) := by
  have dear : Cost.clocks machineCycles ≤ Machine.dearestCycle := Nat.mul_le_mul_right 8 cheap
  have most : Machine.dearestCycle < 2 ^ 32 := by decide
  have period := Cost.timerPeriod_eq
  have fits : Cost.clocks machineCycles < 2 ^ 32 := Nat.lt_of_le_of_lt dear most
  have later : m.clock + Cost.clocks machineCycles < 2 ^ 64 := by omega
  have due : ∀ timer : Countdown, timer.OnTime m.clock → 0 < timer.value →
      timer.deadline + Cost.timerPeriod < 2 ^ 64 := by
    intro timer timely running
    have soon := (timely running).2
    omega
  simp [elapse, fit_eq fits, add_eq later, refresh_eq (due m.delay timely.1),
    refresh_eq (due m.sound timely.2), Machine.elapse]

theorem polled_eq {m : Machine w h} (x : Fin 16) (early : m.clock < 2 ^ 63)
    (timely : m.Timely) :
    (poll x m).bind (elapse Cost.keyPoll) = some ((m.poll x).elapse Cost.keyPoll) := by
  have how := Machine.poll_outcome x m
  have before : (m.poll x).clock < 2 ^ 63 := by
    rw [how.effect.clock]
    exact early
  have cheap : Cost.keyPoll ≤ Cost.fetch + Cost.clearScreen := by decide
  rw [poll_eq early x, Option.bind_some]
  exact elapse_eq cheap before (how.timely timely)

theorem stepped_eq {m : Machine w h} (checks : Sound m) (ok : m.isOk = true)
    (running : m.wait = none) (timely : m.Timely) :
    ((step m).bind fun done => (add 32 Cost.fetch done.2).bind fun spent => elapse spent done.1) =
      some (m.step.1.elapse (Cost.fetch + m.step.2)) := by
  have how := Machine.step_outcome m
  have effect := how.effect ok running
  have before : m.step.1.clock < 2 ^ 63 := by
    rw [effect.clock]
    exact checks.clock
  have cheap := Nat.add_le_add_left how.cost_le Cost.fetch
  have dear : Cost.fetch + m.step.2 < 2 ^ 32 := Nat.lt_of_le_of_lt cheap (by decide)
  rw [step_eq checks, Option.bind_some, add_eq dear, Option.bind_some]
  exact elapse_eq cheap before (effect.timely timely)

theorem cycle_eq {m : Machine w h} (display : Countable w h) (screen : m.screen.MarksInside)
    (wellFormed : m.WellFormed) (early : m.clock < 2 ^ 63) (keys : KeySet) :
    cycle keys m = some (m.cycle keys) := by
  unfold cycle Machine.cycle
  cases ok : m.isOk with
  | false => rfl
  | true =>
      have timely := wellFormed.timely
      simp only [if_true]
      cases waiting : m.wait with
      | some x => exact polled_eq x early timely
      | none =>
          have least := wellFormed.size_pos
          have most : m.memory.size ≤ Config.maxMemory := wellFormed.size ▸ wellFormed.most
          have pc := Nat.le_of_lt (wellFormed.inside ok)
          have stack := wellFormed.stack.pointer
          exact stepped_eq ⟨display, screen, least, most, pc, stack, early⟩ ok rfl timely

theorem length_le_of_accepted {capacity : Nat} {program : List UInt8}
    (accepted : loadRefusal? capacity program = none) : program.length ≤ capacity := by
  unfold loadRefusal? at accepted
  split at accepted
  · cases accepted
  · split at accepted
    · cases accepted
    · split at accepted
      · cases accepted
      · omega

theorem boot_eq {config : Config} {screen : Framebuffer w h} (display : Countable w h)
    (marks : screen.MarksInside) (least : Config.minMemory ≤ config.memorySize)
    (most : config.memorySize ≤ Config.maxMemory) (program : List UInt8) :
    boot config screen program = some (Machine.boot config screen program) := by
  have start : Memory.programStart ≤ config.memorySize := Nat.le_trans (by decide) least
  have dark := clear_eq display marks
  unfold boot Machine.boot
  by_cases accepted : loadRefusal? (config.memorySize - Memory.programStart) program = none
  · have fits := length_le_of_accepted accepted
    have room : Memory.programStart + program.length ≤ config.memorySize := by omega
    simp [sub_eq start, Memory.capacityOf, accepted, image_eq least most room, sub_eq fits, dark]
  · have room : Memory.programStart + ([] : List UInt8).length ≤ config.memorySize := start
    simp [sub_eq start, Memory.capacityOf, accepted, image_eq least most room, dark]

end Checked

end Chip8
