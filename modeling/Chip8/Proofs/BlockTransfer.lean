import Chip8.Proofs.Footprint

/-!
# Blocks of memory

A store puts the registers up to a given one into memory, a load takes them back, and both leave
the index behind the block.  So what was stored can be loaded again whatever became of the
registers in the meantime, and stores one after the other fill memory without a gap and without
an overlap.  The digits of a register are written to a block too, but the index stays.
-/

set_option autoImplicit false

namespace Chip8

namespace Memory

theorem get?_write_inside {start k : Nat} {bytes : List UInt8} {memory : Memory}
    (listed : k < bytes.length) (room : start + bytes.length ≤ memory.size) :
    (memory.write start bytes).get? (start + k) = bytes[k]? := by
  have inside : start ≤ start + k ∧ start + k < start + bytes.length ∧ start + k < memory.size := by
    omega
  rw [get?_write, if_pos inside, Nat.add_sub_cancel_left]

theorem get?_write_outside {start address : Nat} {bytes : List UInt8} (memory : Memory)
    (outside : address < start ∨ start + bytes.length ≤ address) :
    (memory.write start bytes).get? address = memory.get? address := by
  rw [get?_write, if_neg (by omega)]

theorem get?_eq_some_byte {memory : Memory} {address : Nat} (inside : address < memory.size) :
    memory.get? address = some (memory.byte address) := by
  have found : memory.get? address = some memory.bytes[address] := Array.getElem?_eq_getElem inside
  rw [byte, found]
  rfl

theorem lt_size_of_get? {memory : Memory} {address : Nat} {byte : UInt8}
    (found : memory.get? address = some byte) : address < memory.size :=
  (Array.getElem?_eq_some_iff.mp found).1

end Memory

namespace Machine

open Instruction

variable {w h : Nat}

def pointedTo (index : UInt16) (m : Machine w h) : Machine w h := { m with index }

/-! ## What the transfers are to do -/

structure Stores (m : Machine w h) (x : Fin 16) (after : Machine w h) : Prop where
  block : ∀ k ≤ x, after.memory.get? (m.index.toNat + k) = some (m.register k)
  others : ∀ address, address < m.index.toNat ∨ m.index.toNat + x < address →
    after.memory.get? address = m.memory.get? address
  registers : ∀ k, after.register k = m.register k
  index : after.index.toNat = m.index.toNat + x + 1

structure Loads (m : Machine w h) (x : Fin 16) (after : Machine w h) : Prop where
  block : ∀ k ≤ x, m.memory.get? (m.index.toNat + k) = some (after.register k)
  others : ∀ k > x, after.register k = m.register k
  memory : after.memory = m.memory
  index : after.index.toNat = m.index.toNat + x + 1

/-- After a store up to `x` the machine `next` has stored up to `y`: the second block begins
where the first ends, and spares it. -/
structure StoresOn (m : Machine w h) (x : Fin 16) (next : Machine w h) (y : Fin 16)
    (after : Machine w h) : Prop where
  first : ∀ k ≤ x, after.memory.get? (m.index.toNat + k) = some (m.register k)
  second : ∀ k ≤ y, after.memory.get? (m.index.toNat + x + 1 + k) = some (next.register k)
  others : ∀ address, address < m.index.toNat ∨ m.index.toNat + x + 1 + y < address →
    after.memory.get? address = m.memory.get? address
  index : after.index.toNat = m.index.toNat + x + 1 + y + 1

structure Expands (m : Machine w h) (x : Fin 16) (after : Machine w h) : Prop where
  digits : ∃ hundreds tens ones : UInt8,
    (hundreds ≤ 9 ∧ tens ≤ 9 ∧ ones ≤ 9) ∧
      100 * hundreds.toNat + 10 * tens.toNat + ones.toNat = (m.register x).toNat ∧
      after.memory.get? m.index.toNat = some hundreds ∧
      after.memory.get? (m.index.toNat + 1) = some tens ∧
      after.memory.get? (m.index.toNat + 2) = some ones
  others : ∀ address, address < m.index.toNat ∨ m.index.toNat + 2 < address →
    after.memory.get? address = m.memory.get? address
  registers : ∀ k, after.register k = m.register k
  index : after.index = m.index

/-! ## What they do -/

theorem executes?_of_isMisc {m : Machine w h} {word : UInt16} {low : Nat}
    {instruction : Instruction} (meets : m.Meets word) (is : IsMisc low word)
    (means : ofMiscWord? word = some instruction)
    (accepted : m.advance.refusal? instruction = none) : m.executes? = some instruction := by
  have decoded : decode? word = some instruction := by
    simp only [decode?, is.1, means]
  exact executes?_of_meets meets decoded accepted

theorem blockRefusal?_of_room {m : Machine w h} {length : Nat}
    (room : m.index.toNat + length ≤ m.memory.size) : m.advance.blockRefusal? length = none :=
  if_neg (Nat.not_lt.mpr room)

theorem toNat_indexPast {m : Machine w h} {x : Fin 16} (small : m.index.toNat + x + 1 < 65536) :
    (m.indexPast x).toNat = m.index.toNat + x + 1 := by
  have length : (UInt16.ofNat (x.val + 1)).toNat = x.val + 1 :=
    UInt16.toNat_ofNat_of_lt' (show x.val + 1 < 65536 by omega)
  have sum : (m.indexPast x).toNat = (m.index.toNat + (x.val + 1)) % 65536 := by
    rw [indexPast, UInt16.toNat_add, length]
  rw [sum, Nat.mod_eq_of_lt (by omega), Nat.add_assoc]

theorem length_saved (m : Machine w h) (x : Fin 16) :
    (m.registers.toList.take (x + 1)).length = x + 1 := by
  rw [List.length_take, Vector.length_toList]
  omega

theorem getElem?_saved (m : Machine w h) {x k : Fin 16} (within : k ≤ x) :
    (m.registers.toList.take (x + 1))[k.val]? = some (m.register k) := by
  have listed : k.val < x.val + 1 := Nat.lt_succ_of_le within
  rw [List.getElem?_take_of_lt listed]
  simp [register]

theorem cycle_stores (keys : KeySet) {m : Machine w h} {word : UInt16} (meets : m.Meets word)
    (is : IsMisc 0x55 word) (room : m.index.toNat + fieldX word + 1 ≤ m.memory.size)
    (small : m.memory.size ≤ Config.maxMemory) : m.Stores (fieldX word) (m.cycle keys).1 := by
  have means : ofMiscWord? word = some (.store (fieldX word)) := by
    simp only [ofMiscWord?, is.2]
  have executed := executes?_of_isMisc meets is means (blockRefusal?_of_room room)
  obtain ⟨done, effect, registers, memory, index⟩ := cycle_of_executes keys executed
  have written : (m.cycle keys).1.memory =
      m.memory.write m.index.toNat (m.registers.toList.take (fieldX word + 1)) :=
    memory.trans effect.memory
  have length := m.length_saved (fieldX word)
  constructor
  · intro k within
    rw [written, Memory.get?_write_inside (by omega) (by omega), getElem?_saved m within]
  · intro address outside
    rw [written, Memory.get?_write_outside _ (by omega)]
  · intro k
    rw [register, registers]
    exact effect.registers k
  · rw [index, effect.index]
    exact toNat_indexPast (Nat.lt_of_le_of_lt (Nat.le_trans room small) (by decide))

theorem cycle_loads (keys : KeySet) {m : Machine w h} {word : UInt16} (meets : m.Meets word)
    (is : IsMisc 0x65 word) (room : m.index.toNat + fieldX word + 1 ≤ m.memory.size)
    (small : m.index.toNat + fieldX word + 1 < 65536) :
    m.Loads (fieldX word) (m.cycle keys).1 := by
  have means : ofMiscWord? word = some (.load (fieldX word)) := by
    simp only [ofMiscWord?, is.2]
  have executed := executes?_of_isMisc meets is means (blockRefusal?_of_room room)
  obtain ⟨done, effect, registers, memory, index⟩ := cycle_of_executes keys executed
  constructor
  · intro k within
    have loaded : (m.cycle keys).1.register k = m.memory.byte (m.index.toNat + k) := by
      rw [register_cycle_of_executes keys executed]
      exact if_pos within
    rw [loaded, Memory.get?_eq_some_byte (by omega)]
  · intro k beyond
    rw [register_cycle_of_executes keys executed]
    exact if_neg (Nat.not_le_of_lt beyond)
  · exact memory.trans effect.memory
  · rw [index, effect.index]
    exact toNat_indexPast small

theorem decimalDigits_spec (value : UInt8) :
    (value / 100 ≤ 9 ∧ value / 10 % 10 ≤ 9 ∧ value % 10 ≤ 9) ∧
      100 * (value / 100).toNat + 10 * (value / 10 % 10).toNat + (value % 10).toNat =
        value.toNat := by
  have small : value.toNat < 256 := value.toNat_lt
  simp only [UInt8.le_iff_toNat_le, UInt8.toNat_div, UInt8.toNat_mod, UInt8.reduceToNat]
  omega

theorem cycle_expands (keys : KeySet) {m : Machine w h} {word : UInt16} (meets : m.Meets word)
    (is : IsMisc 0x33 word) (room : m.index.toNat + 3 ≤ m.memory.size) :
    m.Expands (fieldX word) (m.cycle keys).1 := by
  have means : ofMiscWord? word = some (.decimal (fieldX word)) := by
    simp only [ofMiscWord?, is.2]
  have executed := executes?_of_isMisc meets is means (blockRefusal?_of_room room)
  obtain ⟨done, effect, registers, memory, index⟩ := cycle_of_executes keys executed
  have written : (m.cycle keys).1.memory =
      m.memory.write m.index.toNat (decimalDigits (m.register (fieldX word))) :=
    memory.trans effect.memory
  have digit : ∀ k < 3, (m.cycle keys).1.memory.get? (m.index.toNat + k) =
      (decimalDigits (m.register (fieldX word)))[k]? := by
    intro k few
    rw [written, Memory.get?_write_inside few room]
  obtain ⟨digits, value⟩ := decimalDigits_spec (m.register (fieldX word))
  constructor
  · exact ⟨_, _, _, digits, value, digit 0 (by decide), digit 1 (by decide), digit 2 (by decide)⟩
  · intro address outside
    have apart : address < m.index.toNat ∨ m.index.toNat + 3 ≤ address := by omega
    rw [written, Memory.get?_write_outside _ apart]
  · intro k
    rw [register, registers]
    exact effect.registers k
  · rw [index, effect.index]
    rfl

/-! ## One transfer after another -/

/-- Whatever machine finds the block of a store as it was left, with its index at the start of
it, loads the registers that were stored. -/
theorem Stores.restored {m after later : Machine w h} {x : Fin 16} {word : UInt16}
    (stored : m.Stores x after) (small : m.index.toNat + x + 1 < 65536) (keys : KeySet)
    (meets : later.Meets word) (is : IsMisc 0x65 word) (same : fieldX word = x)
    (reset : later.index = m.index)
    (untouched : ∀ k ≤ x, later.memory.get? (m.index.toNat + k) =
      after.memory.get? (m.index.toNat + k)) :
    later.Loads x (later.cycle keys).1 ∧
      ∀ k ≤ x, (later.cycle keys).1.register k = m.register k := by
  subst same
  have found : ∀ k ≤ fieldX word, later.memory.get? (later.index.toNat + k) =
      some (m.register k) := by
    intro k within
    rw [reset, untouched k within, stored.block k within]
  have room := Memory.lt_size_of_get? (found _ (Fin.le_refl _))
  have loads := cycle_loads keys meets is room (reset ▸ small)
  refine ⟨loads, ?_⟩
  intro k within
  exact Option.some.inj ((loads.block k within).symm.trans (found k within))

/-- A store by a machine that finds memory and the index as a store has left them. -/
theorem Stores.trans {m after next last : Machine w h} {x y : Fin 16} (stored : m.Stores x after)
    (memory : next.memory = after.memory) (index : next.index = after.index)
    (storedOn : next.Stores y last) : m.StoresOn x next y last := by
  have start : next.index.toNat = m.index.toNat + x + 1 := by
    rw [index, stored.index]
  constructor
  · intro k within
    have before : m.index.toNat + k < next.index.toNat := by
      have listed : k.val ≤ x.val := within
      omega
    rw [storedOn.others _ (.inl before), memory, stored.block k within]
  · intro k within
    rw [← start, storedOn.block k within]
  · intro address outside
    rw [storedOn.others address (by omega), memory, stored.others address (by omega)]
  · rw [storedOn.index, start]

/-- Transfers of blocks that lie in memory, wherever the index points: a store copies the
registers and nothing else, a load of its block restores them, the next store begins where it
ended, and digits are those of the register. -/
theorem block_transfer_exact (config : Config) (history : List Interaction) (index : UInt16)
    (keys : KeySet) (word : UInt16) :
    let m : Machine w h := ((new config).through history).pointedTo index
    let after := (m.cycle keys).1
    let x := fieldX word
    m.Meets word →
      (IsMisc 0x55 word → index.toNat + x + 1 ≤ m.memory.size →
        m.Stores x after ∧
          (∀ (later : Machine w h) laterKeys laterWord, later.Meets laterWord →
            IsMisc 0x65 laterWord → fieldX laterWord = x → later.index = index →
            (∀ k ≤ x, later.memory.get? (index.toNat + k) =
              after.memory.get? (index.toNat + k)) →
            later.Loads x (later.cycle laterKeys).1 ∧
              ∀ k ≤ x, (later.cycle laterKeys).1.register k = m.register k) ∧
          ∀ (next : Machine w h) nextKeys nextWord, next.Meets nextWord →
            IsMisc 0x55 nextWord → next.memory = after.memory → next.index = after.index →
            after.index.toNat + fieldX nextWord + 1 ≤ m.memory.size →
            m.StoresOn x next (fieldX nextWord) (next.cycle nextKeys).1) ∧
        (IsMisc 0x65 word → index.toNat + x + 1 ≤ m.memory.size → m.Loads x after) ∧
        (IsMisc 0x33 word → index.toNat + 3 ≤ m.memory.size → m.Expands x after) := by
  intro m after x meets
  have wellFormed : ((new config).through history : Machine w h).WellFormed :=
    (new_wellFormed config).through history
  have most : m.memory.size ≤ Config.maxMemory := wellFormed.size ▸ wellFormed.most
  have short : ∀ last ≤ m.memory.size, last < 65536 := by
    intro last fits
    exact Nat.lt_of_le_of_lt (Nat.le_trans fits most) (by decide)
  refine ⟨?_, ?_, ?_⟩
  · intro is room
    have stored : m.Stores x after := cycle_stores keys meets is room most
    have size : after.memory.size = m.memory.size := (m.cycle_effect keys).size
    refine ⟨stored, ?_, ?_⟩
    · intro later laterKeys laterWord laterMeets loads same reset untouched
      exact stored.restored (short _ room) laterKeys laterMeets loads same reset untouched
    · intro next nextKeys nextWord nextMeets stores memory goesOn nextRoom
      have nextSize : next.memory.size = m.memory.size := by rw [memory, size]
      exact stored.trans memory goesOn
        (cycle_stores nextKeys nextMeets stores (by rw [goesOn, nextSize]; exact nextRoom)
          (nextSize ▸ most))
  · intro is room
    exact cycle_loads keys meets is room (short _ room)
  · intro is room
    exact cycle_expands keys meets is room

/-- All registers are stored, two more follow them up to the last byte of memory, and the block is
loaded by a machine whose registers are all different by then. -/
theorem block_transfer_exact_to_end :
    let m : Machine 8 4 := ((new { memorySize := 0x222 }).through
      [.act (.load [0x60, 0x11, 0x6F, 0x87, 0xFF, 0x55, 0xF1, 0x55, 0xFF, 0x65]), .act (.cycle ∅),
        .act (.cycle ∅)]).pointedTo 0x210
    let after := (m.cycle ∅).1
    let later : Machine 8 4 :=
      { after with registers := Vector.replicate 16 0xAA, index := 0x210, pc := 0x208 }
    m.Meets 0xFF55 ∧ m.Stores (.last 15) after ∧
      after.Meets 0xF155 ∧ m.StoresOn (.last 15) after 1 (after.cycle ∅).1 ∧
      later.Meets 0xFF65 ∧ later.register (.last 15) = 0xAA ∧
      (later.cycle ∅).1.register (.last 15) = 0x87 := by
  intro m after later
  have facts : m.Meets 0xFF55 ∧ after.Meets 0xF155 ∧ later.Meets 0xFF65 ∧
      m.register (.last 15) = 0x87 ∧ later.register (.last 15) = 0xAA ∧
      m.memory.size = 0x222 ∧ after.index.toNat = 0x220 := by
    decide +kernel
  have words : (family 0xFF55 = 0xF ∧ (fieldByte 0xFF55).toNat = 0x55 ∧ fieldX 0xFF55 = .last 15) ∧
      (family 0xF155 = 0xF ∧ (fieldByte 0xF155).toNat = 0x55 ∧ fieldX 0xF155 = 1) ∧
      family 0xFF65 = 0xF ∧ (fieldByte 0xFF65).toNat = 0x65 ∧ fieldX 0xFF65 = .last 15 := by
    decide
  subst later after m
  obtain ⟨meets, nextMeets, laterMeets, stored, changed, size, behind⟩ := facts
  obtain ⟨⟨top, low, x⟩, ⟨nextTop, nextLow, y⟩, laterTop, laterLow, z⟩ := words
  have transfers := (block_transfer_exact (w := 8) (h := 4) { memorySize := 0x222 }
    [.act (.load [0x60, 0x11, 0x6F, 0x87, 0xFF, 0x55, 0xF1, 0x55, 0xFF, 0x65]), .act (.cycle ∅),
      .act (.cycle ∅)] 0x210 ∅ 0xFF55 meets).1 ⟨top, low⟩ (by rw [x, size]; decide)
  obtain ⟨stores, restored, storedOn⟩ := transfers
  -- Compared as machines the two would be run; it is only their memories that are the same text.
  have loaded := (restored _ ∅ 0xFF65 laterMeets ⟨laterTop, laterLow⟩ (z.trans x.symm) rfl
    (by intros; dsimp only)).2 (.last 15) (Fin.le_of_eq x.symm)
  have both := storedOn _ ∅ 0xF155 nextMeets ⟨nextTop, nextLow⟩ rfl rfl
    (by rw [behind, y, size]; decide)
  rw [x] at stores both
  rw [y] at both
  exact ⟨meets, stores, nextMeets, both, laterMeets, changed, loaded.trans stored⟩

end Machine

end Chip8
