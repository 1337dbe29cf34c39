import Chip8.Proofs.ControlFlow

/-!
# What a cycle leaves alone

Of all the parts of a machine a cycle changes few, and which they are can be read off the word
that it fetches.  Here it is said part by part: if the part is not as it was, then a word of a
certain kind was fetched, and where the part has many places, the changed place is one that the
word names.  This holds whether or not the cycle ends in a fault.
-/

set_option autoImplicit false

namespace Chip8

namespace Instruction

def IsMisc (low : Nat) (word : UInt16) : Prop :=
  family word = 0xF ∧ (fieldByte word).toNat = low

end Instruction

namespace Countdown

/-- What time alone does to a timer: nothing, or one step down when its deadline has passed,
with the next deadline one period on. -/
def Ages (before after : Countdown) (now : Nat) : Prop :=
  after = before ∨
    0 < before.value ∧ before.deadline ≤ now ∧
      after = ⟨before.value - 1, before.deadline + 29333⟩

theorem ages_refresh (timer : Countdown) (now : Nat) : timer.Ages (timer.refresh now) now := by
  by_cases stopped : timer.value = 0
  · exact .inl (refresh_of_value_eq_zero stopped)
  · by_cases due : timer.deadline ≤ now
    · have running : 0 < timer.value := UInt8.pos_iff_ne_zero.mpr stopped
      refine .inr ⟨running, due, ?_⟩
      rw [refresh_of_due running due, Cost.timerPeriod_eq]
    · exact .inl (refresh_of_lt (Nat.lt_of_not_le due))

end Countdown

namespace Memory

/-- Only the window of a write can change. -/
theorem window_of_get?_write_ne {start address : Nat} {bytes : List UInt8} {memory : Memory}
    (changed : (memory.write start bytes).get? address ≠ memory.get? address) :
    start ≤ address ∧ address < start + bytes.length := by
  rw [get?_write] at changed
  split at changed
  · rename_i inside
    exact ⟨inside.1, inside.2.1⟩
  · exact absurd rfl changed

end Memory

namespace Operation

theorem flagged_of_isSome {n : Fin 16} {operation : Operation} {shifts : ShiftProfile}
    {vx vy : UInt8} (code : ofCode? n = some operation)
    (answers : (operation.apply shifts vx vy).2.isSome = true) :
    n.val ∈ [0x4, 0x5, 0x6, 0x7, 0xE] := by
  revert code
  cases operation with
  | copy | bitOr | bitAnd | bitXor => cases answers
  | add | subtract | shiftRight | subtractFrom | shiftLeft =>
      revert n
      decide

end Operation

namespace Instruction

/-! ## The words that write to a part -/

def Sets (y : Fin 16) (word : UInt16) : Prop :=
  (family word ∈ [0x6, 0x7, 0x8, 0xC] ∨ IsMisc 0x07 word) ∧ y = fieldX word ∨
    (family word = 0x8 ∧ (fieldN word).val ∈ [0x4, 0x5, 0x6, 0x7, 0xE] ∨ family word = 0xD) ∧
      y = .last 15 ∨
    IsMisc 0x65 word ∧ y ≤ fieldX word

def SetsIndex (word : UInt16) : Prop :=
  family word = 0xA ∨ IsMisc 0x1E word ∨ IsMisc 0x29 word ∨ IsMisc 0x55 word ∨ IsMisc 0x65 word

def Paints (word : UInt16) : Prop := word = 0x00E0 ∨ family word = 0xD

end Instruction

namespace Machine

open Instruction

variable {w h : Nat}

def WritesTo (m : Machine w h) (address : Nat) (word : UInt16) : Prop :=
  IsMisc 0x33 word ∧ m.index.toNat ≤ address ∧ address < m.index.toNat + 3 ∨
    IsMisc 0x55 word ∧ m.index.toNat ≤ address ∧ address ≤ m.index.toNat + (fieldX word).val

section Instructions

variable {m : Machine w h} {word : UInt16} {instruction : Instruction}

theorem writesTo_of_memoryAfter (how : WrittenAs word instruction) {address : Nat}
    (changed : (m.memoryAfter instruction).get? address ≠ m.memory.get? address) :
    m.WritesTo address word := by
  cases how with
  | decimal leading low =>
      have window := Memory.window_of_get?_write_ne changed
      exact .inl ⟨⟨leading, low⟩, window⟩
  | store leading low =>
      obtain ⟨first, last⟩ := Memory.window_of_get?_write_ne changed
      simp only [List.length_take, Vector.length_toList] at last
      exact .inr ⟨⟨leading, low⟩, first, by omega⟩
  | _ => exact absurd rfl changed

theorem sets_of_registerAfter (how : WrittenAs word instruction) {y : Fin 16}
    (changed : m.registerAfter instruction y ≠ m.register y) : Sets y word := by
  cases how with
  | setByte leading | addByte leading | random leading =>
      have target : y = fieldX word := by
        by_contra other
        exact changed (if_neg other)
      exact .inl ⟨.inl (by rw [leading]; decide), target⟩
  | readDelay leading low =>
      have target : y = fieldX word := by
        by_contra other
        exact changed (if_neg other)
      exact .inl ⟨.inr ⟨leading, low⟩, target⟩
  | @combine leading operation last =>
      -- Register F may be the first operand too; then it is the flag's.
      by_cases flagged : y = .last 15 ∧ (operation.apply m.config.shifts
          (m.register (fieldX word)) (m.register (fieldY word))).2.isSome
      · exact .inr (.inl ⟨.inl ⟨leading, Operation.flagged_of_isSome last flagged.2⟩, flagged.1⟩)
      · have target : y = fieldX word := by
          by_contra other
          exact changed ((if_neg flagged).trans (if_neg other))
        exact .inl ⟨.inl (by rw [leading]; decide), target⟩
  | draw leading =>
      have target : y = .last 15 := by
        by_contra other
        exact changed (if_neg other)
      exact .inr (.inl ⟨.inr leading, target⟩)
  | load leading low =>
      have target : y ≤ fieldX word := by
        by_contra other
        exact changed (if_neg other)
      exact .inr (.inr ⟨⟨leading, low⟩, target⟩)
  | _ => exact absurd rfl changed

theorem stack_of_stackAfter (how : WrittenAs word instruction)
    (accepted : m.refusal? instruction = none) :
    ((m.stackAfter instruction).pointer ≠ m.stack.pointer →
      family word = 0x2 ∨ word = 0x00EE) ∧
    ∀ i : Nat, (m.stackAfter instruction).slots[i]? ≠ m.stack.slots[i]? →
      family word = 0x2 ∧ i + 1 = m.stack.pointer := by
  cases how with
  | ret whole => exact ⟨fun _ => .inr whole, fun _ changed => absurd rfl changed⟩
  | call leading =>
      refine ⟨fun _ => .inl leading, fun i changed => ⟨leading, ?_⟩⟩
      have room : 0 < m.stack.pointer :=
        Nat.pos_of_ne_zero (by simpa [CallStack.isFull] using isFull_of_accepted _ accepted)
      by_contra other
      exact changed (Vector.getElem?_setIfInBounds_ne (by omega))
  | _ => exact ⟨fun changed => absurd rfl changed, fun _ changed => absurd rfl changed⟩

theorem paints_of_screenAfter (how : WrittenAs word instruction)
    (changed : m.screenAfter instruction ≠ m.screen) : Paints word := by
  cases how with
  | clearScreen whole => exact .inl whole
  | draw leading => exact .inr leading
  | _ => exact absurd rfl changed

theorem setsIndex_of_indexAfter (how : WrittenAs word instruction)
    (changed : m.indexAfter instruction ≠ m.index) : SetsIndex word := by
  cases how with
  | setIndex leading => exact .inl leading
  | addIndex leading low => exact .inr (.inl ⟨leading, low⟩)
  | glyph leading low => exact .inr (.inr (.inl ⟨leading, low⟩))
  | store leading low => exact .inr (.inr (.inr (.inl ⟨leading, low⟩)))
  | load leading low => exact .inr (.inr (.inr (.inr ⟨leading, low⟩)))
  | _ => exact absurd rfl changed

theorem isMisc_of_waitAfter (how : WrittenAs word instruction)
    (changed : m.waitAfter instruction ≠ m.wait) : IsMisc 0x0A word := by
  cases how with
  | awaitKey leading low => exact ⟨leading, low⟩
  | _ => exact absurd rfl changed

theorem isMisc_of_latchAfter (how : WrittenAs word instruction)
    (changed : m.latchAfter instruction ≠ m.latch) : IsMisc 0x0A word := by
  cases how with
  | awaitKey leading low => exact ⟨leading, low⟩
  | _ => exact absurd rfl changed

theorem isMisc_of_delayAfter (how : WrittenAs word instruction)
    (changed : m.delayAfter instruction ≠ m.delay) : IsMisc 0x15 word := by
  cases how with
  | setDelay leading low => exact ⟨leading, low⟩
  | _ => exact absurd rfl changed

theorem isMisc_of_soundAfter (how : WrittenAs word instruction)
    (changed : m.soundAfter instruction ≠ m.sound) : IsMisc 0x18 word := by
  cases how with
  | setSound leading low => exact ⟨leading, low⟩
  | _ => exact absurd rfl changed

theorem family_of_seedAfter (how : WrittenAs word instruction)
    (changed : m.seedAfter instruction ≠ m.seed) : family word = 0xC := by
  cases how with
  | random leading => exact leading
  | _ => exact absurd rfl changed

end Instructions

/-! ## What a cycle writes to -/

def Fetches (m : Machine w h) (kind : UInt16 → Prop) : Prop :=
  ∃ word, m.fetch? = some word ∧ kind word

/-- What a cycle of a running machine may have changed, and only on the word for it. -/
structure Footprint (m after : Machine w h) : Prop where
  config : after.config = m.config
  size : after.memory.size = m.memory.size
  memory : ∀ address, after.memory.get? address ≠ m.memory.get? address →
    m.Fetches (m.WritesTo address)
  pointer : after.stack.pointer ≠ m.stack.pointer →
    m.Fetches fun word => family word = 0x2 ∨ word = 0x00EE
  slots : ∀ i : Nat, after.stack.slots[i]? ≠ m.stack.slots[i]? →
    m.Fetches fun word => family word = 0x2 ∧ i + 1 = m.stack.pointer
  screen : after.screen ≠ m.screen → m.Fetches Paints
  index : after.index ≠ m.index → m.Fetches SetsIndex
  wait : after.wait ≠ m.wait → m.Fetches (IsMisc 0x0A)
  latch : after.latch ≠ m.latch → m.Fetches (IsMisc 0x0A)
  delay : m.delay.Ages after.delay after.clock ∨ m.Fetches (IsMisc 0x15)
  sound : m.sound.Ages after.sound after.clock ∨ m.Fetches (IsMisc 0x18)
  seed : after.seed = m.seed + 1 ∨ m.Fetches fun word => family word = 0xC
  registers : ∀ y, after.register y ≠ m.register y → m.Fetches (Sets y)

theorem written_of_executes {m : Machine w h} {instruction : Instruction}
    (executed : m.executes? = some instruction) :
    ∃ word, m.fetch? = some word ∧ WrittenAs word instruction ∧
      m.advance.refusal? instruction = none := by
  obtain ⟨word, fetched, decoded, accepted⟩ := executes?_eq_some executed
  have how := reading_decode? word
  rw [decoded] at how
  cases how with
  | written how => exact ⟨word, fetched, how, accepted⟩

theorem footprint_of_executes (keys : KeySet) {m : Machine w h} {instruction : Instruction}
    (executed : m.executes? = some instruction) : m.Footprint (m.cycle keys).1 := by
  obtain ⟨word, fetched, how, accepted⟩ := written_of_executes executed
  have allowed : { m with keys }.advance.refusal? instruction = none :=
    (refusal?_keys keys m.advance instruction).trans accepted
  have fetches {kind : UInt16 → Prop} (is : kind word) : m.Fetches kind := ⟨word, fetched, is⟩
  obtain ⟨done, fault, machineCycles, effect, left⟩ := cycle_eq_of_executes keys executed
  have stack := stack_of_stackAfter how allowed
  rw [left]
  refine ⟨effect.config, effect.size, ?_, ?_, ?_, ?_, ?_, ?_, ?_, ?_, ?_, ?_, ?_⟩
  · intro address changed
    exact fetches (writesTo_of_memoryAfter how (effect.memory ▸ changed))
  · intro changed
    exact fetches (stack.1 (effect.stack ▸ changed))
  · intro i changed
    exact fetches (stack.2 i (effect.stack ▸ changed))
  · intro changed
    exact fetches (paints_of_screenAfter how (effect.screen ▸ changed))
  · intro changed
    exact fetches (setsIndex_of_indexAfter how (effect.index ▸ changed))
  · intro changed
    exact fetches (isMisc_of_waitAfter how (effect.wait ▸ changed))
  · intro changed
    exact fetches (isMisc_of_latchAfter how (effect.latch ▸ changed))
  · by_cases kept : done.delay = m.delay
    · exact .inl (kept ▸ Countdown.ages_refresh done.delay _)
    · exact .inr (fetches (isMisc_of_delayAfter how (effect.delay ▸ kept)))
  · by_cases kept : done.sound = m.sound
    · exact .inl (kept ▸ Countdown.ages_refresh done.sound _)
    · exact .inr (fetches (isMisc_of_soundAfter how (effect.sound ▸ kept)))
  · by_cases kept : done.seed = m.seed
    · exact .inl (congrArg (· + 1) kept)
    · exact .inr (fetches (family_of_seedAfter how (effect.seed ▸ kept)))
  · intro y changed
    exact fetches (sets_of_registerAfter how (effect.registers y ▸ changed))

/-- A cycle that carries nothing out changes no more than time does. -/
theorem cycle_of_unexecuted (keys : KeySet) {m : Machine w h} (ok : m.isOk = true)
    (running : m.wait = none) (unexecuted : m.executes? = none) :
    ∃ pc fault machineCycles,
      (m.cycle keys).1 = ({ m with keys, pc, fault }.elapse machineCycles).1 := by
  have how := step_outcome { m with keys }
  rw [cycle_of_running keys ok running]
  generalize { m with keys }.step = done at how
  cases how with
  | unfetched short => exact ⟨_, _, _, rfl⟩
  | undecoded fetched meaningless => exact ⟨_, _, _, rfl⟩
  | refused fetched decoded refusal => exact ⟨_, _, _, rfl⟩
  | performed fetched decoded accepted inside | ranOff fetched decoded accepted outside =>
      have executed := executes?_of_accepted (m := { m with keys }) ok running fetched decoded
        accepted
      cases executed.symm.trans unexecuted

theorem footprint_of_unexecuted (keys : KeySet) {m : Machine w h} (ok : m.isOk = true)
    (running : m.wait = none) (unexecuted : m.executes? = none) :
    m.Footprint (m.cycle keys).1 := by
  obtain ⟨pc, fault, machineCycles, left⟩ := cycle_of_unexecuted keys ok running unexecuted
  rw [left]
  refine ⟨rfl, rfl, ?_, ?_, ?_, ?_, ?_, ?_, ?_, .inl (Countdown.ages_refresh _ _),
    .inl (Countdown.ages_refresh _ _), .inl rfl, ?_⟩
  · exact fun _ changed => absurd rfl changed
  · exact fun changed => absurd rfl changed
  · exact fun _ changed => absurd rfl changed
  · exact fun changed => absurd rfl changed
  · exact fun changed => absurd rfl changed
  · exact fun changed => absurd rfl changed
  · exact fun changed => absurd rfl changed
  · exact fun _ changed => absurd rfl changed

/-- Every cycle of a running machine, with a fault or without, leaves alone what its word does
not write to. -/
theorem cycle_footprint (config : Config) (history : List Interaction) (keys : KeySet) :
    let m : Machine w h := (new config).through history
    m.isOk = true → m.isWaiting = false → m.Footprint (m.cycle keys).1 := by
  intro m ok unwaiting
  have running : m.wait = none := by simpa [isWaiting] using unwaiting
  cases executed : m.executes? with
  | some instruction => exact footprint_of_executes keys executed
  | none => exact footprint_of_unexecuted keys ok running executed

/-- A store to the lowest addresses, after which the program counter is out of memory: the
cycle ends in a fault, and what it stored is there and nothing else. -/
theorem cycle_footprint_of_fault :
    let m : Machine 8 4 := (new { memorySize := 0x202 }).through [.act (.load [0xF1, 0x55])]
    m.isOk = true ∧ m.isWaiting = false ∧ (m.cycle ∅).1.isOk = false ∧
      (m.cycle ∅).1.memory.get? 1 ≠ m.memory.get? 1 ∧
      (m.cycle ∅).1.memory.get? 2 = m.memory.get? 2 := by
  intro m
  have ready : m.isOk = true ∧ m.isWaiting = false ∧ (m.cycle ∅).1.isOk = false ∧
      (m.cycle ∅).1.memory.get? 1 ≠ m.memory.get? 1 ∧ m.fetch? = some 0xF155 ∧
      m.index.toNat = 0 := by
    decide +kernel
  subst m
  obtain ⟨ok, unwaiting, faulted, stored, fetched, start⟩ := ready
  have footprint := cycle_footprint (w := 8) (h := 4) { memorySize := 0x202 }
    [.act (.load [0xF1, 0x55])] ∅ ok unwaiting
  refine ⟨ok, unwaiting, faulted, stored, ?_⟩
  by_contra changed
  obtain ⟨word, found, writes⟩ := footprint.memory 2 changed
  obtain rfl : 0xF155 = word := Option.some.inj (fetched.symm.trans found)
  rcases writes with ⟨⟨_, low⟩, _⟩ | ⟨_, _, last⟩
  · exact absurd low (by decide)
  · rw [start] at last
    exact absurd last (by decide)

end Machine

end Chip8
