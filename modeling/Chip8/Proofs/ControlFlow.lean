import Chip8.Proofs.Stopping

/-!
# Where a word leads and what it takes

The program counter and the cost of a cycle come about in different places, and only a skip
makes one depend on the other: it takes four machine cycles more exactly when it moves past a
word.  Here both are told from the word alone, for every cycle that does not end in a fault.
-/

set_option autoImplicit false

namespace Chip8

namespace Instruction

def miscCycles (word : UInt16) : Nat :=
  match (fieldByte word).toNat with
  | 0x07 | 0x15 | 0x18 => 10
  | 0x0A => 18
  | 0x1E | 0x29 => 16
  | 0x33 => 92
  | 0x55 | 0x65 => 14 + 14 * ((fieldX word).val + 1)
  | _ => 0

/-- The machine cycles that a word takes beyond those of its fetch, if it does not skip. -/
def machineCycles (word : UInt16) : Nat :=
  match family word with
  | 0x0 => if word = 0x00E0 then 3078 else if word = 0x00EE then 10 else 0
  | 0x1 => 12
  | 0x2 => 26
  | 0x3 | 0x4 => 10
  | 0x5 | 0x9 | 0xE => 14
  | 0x6 => 6
  | 0x7 => 10
  | 0x8 => 44
  | 0xA => 12
  | 0xB => 22
  | 0xC => 36
  | 0xD => 26 + 46 * (fieldN word).val
  | _ => miscCycles word

end Instruction

namespace Machine

open Instruction

variable {w h : Nat}

/-- The cost of an instruction is that of its word, and four more if it skips. -/
theorem cost_eq_machineCycles {m : Machine w h} {word : UInt16} {instruction : Instruction}
    (how : WrittenAs word instruction) (keys : KeySet) :
    { m with keys }.advance.cost instruction =
      machineCycles word + if m.Skips keys word then 4 else 0 := by
  cases instruction with
  | skip condition =>
      have taken := holds_iff_skips how keys (m := m)
      by_cases skips : m.Skips keys word
      · rw [cost, Cost.skip, if_pos (taken.mpr skips), if_pos skips]
        cases how <;> simp [skipCost, machineCycles, *] <;> rfl
      · rw [cost, Cost.skip, if_neg (taken.not.mpr skips), if_neg skips]
        cases how <;> simp [skipCost, machineCycles, *] <;> rfl
  | clearScreen =>
      cases how with
      | clearScreen whole =>
          have leading : family 0x00E0 = 0 := by decide
          simp [whole, cost, machineCycles, Skips, leading, Cost.clearScreen]
  | ret =>
      cases how with
      | ret whole =>
          have leading : family 0x00EE = 0 := by decide
          simp [whole, cost, machineCycles, Skips, leading, Cost.ret]
  | system address =>
      cases how with
      | system code =>
          obtain ⟨leading, notClear, notReturn⟩ := code
          simp [cost, machineCycles, Skips, leading, notClear, notReturn, Cost.system]
  | _ =>
      cases how
      simp [cost, machineCycles, miscCycles, Skips, *]
      rfl

/-- A cycle that leaves a running machine running has carried out the word it found. -/
theorem cycle_of_stillOk {keys : KeySet} {m : Machine w h} (sound : m.stack.pointer ≤ 32)
    (ok : m.isOk = true) (running : m.wait = none) (stillOk : (m.cycle keys).1.isOk = true) :
    ∃ instruction, m.Meets m.opcode ∧ WrittenAs m.opcode instruction ∧
      m.advance.refusal? instruction = none ∧
      m.cycle keys = ({ m with keys }.advance.perform instruction).elapse
        (Cost.fetch + { m with keys }.advance.cost instruction) := by
  by_cases short : m.memory.size < m.pc + 2
  · rw [cycle_of_unfetched keys ok running short] at stillOk
    cases stillOk
  have meets := meets_opcode ok running (Nat.le_of_not_lt short)
  cases objection : m.objection? m.opcode with
  | some fault =>
      rw [cycle_of_objection keys sound meets objection] at stillOk
      cases stillOk
  | none =>
      obtain ⟨instruction, decoded, how, accepted⟩ := accepted_of_unopposed sound objection
      refine ⟨instruction, meets, how, accepted, ?_⟩
      rw [cycle_eq_of_accepted keys meets decoded accepted] at stillOk ⊢
      split
      · rfl
      · rename_i outside
        rw [if_neg outside] at stillOk
        cases stillOk

/-- A return that succeeds takes the latest address off the stack and goes there. -/
theorem toList_eq_of_returned {keys : KeySet} {m : Machine w h} (sound : m.stack.pointer ≤ 32)
    (meets : m.Meets retWord) (stillOk : (m.cycle keys).1.isOk = true) :
    m.stack.toList = (m.cycle keys).1.pc :: (m.cycle keys).1.stack.toList := by
  have unfaulted : (m.cycle keys).1.fault = none := Option.isNone_iff_eq_none.mp stillOk
  have underflow := fault_cycle_of_ret keys meets
  rw [unfaulted] at underflow
  cases calls : m.stack.toList with
  | nil =>
      have none : m.stack.depth = 0 := by rw [← CallStack.length_toList, calls, List.length_nil]
      cases underflow.mpr none
  | cons address outer =>
      rw [(cycle_of_ret keys meets calls).1, toList_cycle_of_ret keys sound meets, calls,
        List.tail_cons]

/-- Where a cycle under the given keys goes on that has carried out a word, and what it cost. -/
structure Proceeds (m : Machine w h) (keys : KeySet) (word : UInt16) (after : Machine w h)
    (clocks : Nat) : Prop where
  jump : family word ∈ [0x1, 0x2] → after.pc = fieldAddress word
  jumpFrom : family word = 0xB → after.pc = fieldAddress word + m.jumpOffset
  ret : word = 0x00EE → m.stack.toList = after.pc :: after.stack.toList
  skip : m.Skips keys word → after.pc = m.pc + 4
  next : word ≠ 0x00EE → family word ∉ [0x1, 0x2, 0xB] → ¬ m.Skips keys word →
    after.pc = m.pc + 2
  cost : ¬ MaySkip word → clocks = 8 * (40 + machineCycles word)
  skipCost : MaySkip word →
    clocks = 8 * (40 + (machineCycles word + if after.pc = m.pc + 4 then 4 else 0))

theorem Proceeds.of_landing {m after : Machine w h} {keys : KeySet} {word : UInt16} {clocks : Nat}
    (pc : after.pc = m.landing keys word)
    (cost : clocks = 8 * (40 + (machineCycles word + if m.Skips keys word then 4 else 0)))
    (ret : word = 0x00EE → m.stack.toList = after.pc :: after.stack.toList) :
    m.Proceeds keys word after clocks := by
  refine ⟨?_, ?_, ret, ?_, ?_, ?_, ?_⟩
  · intro leading
    have leads : family word = 0x1 ∨ family word = 0x2 := by simpa using leading
    have notReturn : word ≠ 0x00EE := ne_return (by omega)
    rw [pc, landing, if_neg notReturn, if_pos leads]
  · intro leading
    have notReturn : word ≠ 0x00EE := ne_return (by omega)
    rw [pc, landing, if_neg notReturn, if_neg (by omega), if_pos leading]
  · intro skips
    rw [pc, landing_of_maySkip (maySkip_of_skips skips), if_pos skips]
  · intro notReturn leading stays
    simp only [List.mem_cons, List.not_mem_nil, or_false, not_or] at leading
    rw [pc, landing, if_neg notReturn, if_neg (by omega), if_neg leading.2.2, if_neg stays]
  · intro plain
    rw [cost, if_neg fun skips => plain (maySkip_of_skips skips), Nat.add_zero]
  · intro maySkip
    rw [cost, pc, landing_of_maySkip maySkip]
    by_cases skips : m.Skips keys word
    · simp [skips]
    · simp [skips]

/-- Every cycle that carries out a word and does not end in a fault goes where the word and the
state before it say, for the cost in the table; and a skip costs more exactly when it was taken.
A register that holds no key's number names a key that is never down. -/
theorem pc_and_cost_agree (config : Config) (history : List Interaction) (keys : KeySet) :
    let m : Machine w h := (new config).through history
    let done := m.cycle keys
    m.isOk = true → m.isWaiting = false → done.1.isOk = true →
      m.fetch? = some m.opcode ∧ m.Proceeds keys m.opcode done.1 done.2 ∧
        ∀ x, 15 < (m.register x).toNat → keys.contains (m.register x).toNat = false := by
  intro m done ok unwaiting stillOk
  have wellFormed : m.WellFormed := (new_wellFormed config).through history
  have sound := wellFormed.stack.pointer
  have running : m.wait = none := by simpa [isWaiting] using unwaiting
  obtain ⟨instruction, meets, how, accepted, left⟩ := cycle_of_stillOk sound ok running stillOk
  refine ⟨meets.fetched, .of_landing ?_ ?_ ?_, ?_⟩
  · show (m.cycle keys).1.pc = _
    rw [left]
    exact (perform_fullEffect _ instruction).pc.trans (pcAfter_eq_landing how accepted keys)
  · show (m.cycle keys).2 = _
    rw [left, cost_elapse, cost_eq_machineCycles how keys, Nat.mul_comm]
    rfl
  · intro returns
    rw [returns] at meets
    exact toList_eq_of_returned sound meets stillOk
  · intro x beyond
    exact BitVec.getLsbD_of_ge _ _ beyond

/-- A skip on a key that does not exist, under a keypad with every key down. -/
theorem pc_and_cost_agree_of_no_key :
    let m : Machine 8 4 := (new { memorySize := 0x208 }).through
      [.act (.load [0x60, 0x1F, 0xE0, 0xA1]), .act (.cycle ∅)]
    let done := m.cycle ⟨0xFFFF⟩
    m.isOk = true ∧ m.isWaiting = false ∧ done.1.isOk = true ∧ m.opcode = 0xE0A1 ∧
      done.1.pc = m.pc + 4 ∧ done.2 = 8 * (40 + (14 + 4)) := by
  intro m done
  have ready : m.isOk = true ∧ m.isWaiting = false ∧ done.1.isOk = true ∧ m.opcode = 0xE0A1 ∧
      m.Skips ⟨0xFFFF⟩ m.opcode ∧ machineCycles 0xE0A1 = 14 := by
    decide +kernel
  subst done m
  obtain ⟨ok, unwaiting, stillOk, word, skips, tabled⟩ := ready
  have proceeds := (pc_and_cost_agree (w := 8) (h := 4) { memorySize := 0x208 }
    [.act (.load [0x60, 0x1F, 0xE0, 0xA1]), .act (.cycle ∅)] ⟨0xFFFF⟩ ok unwaiting stillOk).2.1
  have skipped := proceeds.skip skips
  have cost := proceeds.skipCost (maySkip_of_skips skips)
  rw [if_pos skipped, word, tabled] at cost
  exact ⟨ok, unwaiting, stillOk, word, skipped, cost⟩

end Machine

end Chip8
