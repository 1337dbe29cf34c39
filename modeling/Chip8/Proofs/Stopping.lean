import Chip8.Proofs.Refusal
import Mathlib.Logic.ExistsUnique

/-!
# What a fault leaves behind

A cycle that stops a machine costs the same whatever the reason, and lets the time pass that
it costs.  Apart from that there are three ways.  A word that memory cuts off changes nothing,
and one that is refused only the program counter, so nothing is ever half done.  A word that
was carried out and left memory has all of its effect, and nothing of it is taken back.
-/

set_option autoImplicit false

namespace Chip8

inductive Stop where
  | unfetched
  | refused
  | ranOff
  deriving DecidableEq

namespace Machine

variable {w h : Nat}

/-- The machine once the cycle that meets a fault is over, if the cycle did nothing else. -/
def stoppedBy (fault : Fault) (m : Machine w h) : Machine w h :=
  { m with
    fault := some fault
    seed := m.seed + 1
    clock := m.clock + 320
    delay := m.delay.refresh (m.clock + 320)
    sound := m.sound.refresh (m.clock + 320) }

def Leaves (m : Machine w h) (keys : KeySet) (fault : Fault) (after : Machine w h) : Stop → Prop
  | .unfetched =>
      m.memory.size < m.pc + 2 ∧ fault = .outOfBounds ∧
        after = { m with keys }.stoppedBy fault
  | .refused =>
      m.pc + 2 ≤ m.memory.size ∧ m.objection? m.opcode = some fault ∧
        after = { m with keys, pc := m.pc + 2 }.stoppedBy fault
  | .ranOff =>
      m.pc + 2 ≤ m.memory.size ∧ m.objection? m.opcode = none ∧ fault = .outOfBounds ∧
        ∃ instruction done, Instruction.decode? m.opcode = some instruction ∧
          FullEffect { m with keys, pc := m.pc + 2 } instruction done ∧
          m.memory.size ≤ done.pc ∧ after = done.stoppedBy fault

/-- A word that is not held against takes full effect; if that leaves memory, the machine stops
as it is. -/
theorem cycle_of_ranOff (keys : KeySet) {m : Machine w h} {word : UInt16}
    {instruction : Instruction} (meets : m.Meets word)
    (decoded : Instruction.decode? word = some instruction)
    (accepted : m.advance.refusal? instruction = none)
    (outside : m.memory.size ≤ ({ m with keys }.advance.perform instruction).pc) :
    m.cycle keys =
      (({ m with keys }.advance.perform instruction).stoppedBy .outOfBounds, 320) := by
  rw [cycle_eq_of_accepted keys meets decoded accepted, if_neg (Nat.not_lt.mpr outside)]
  rfl

/-- The ways exclude each other. -/
theorem Leaves.unique {m after : Machine w h} {keys : KeySet} {fault : Fault} {way other : Stop}
    (first : m.Leaves keys fault after way) (second : m.Leaves keys fault after other) :
    way = other := by
  cases way <;> cases other <;> try rfl
  case unfetched.refused | unfetched.ranOff =>
    exact absurd first.1 (Nat.not_lt_of_le second.1)
  case refused.unfetched | ranOff.unfetched =>
    exact absurd second.1 (Nat.not_lt_of_le first.1)
  case refused.ranOff => exact absurd (first.2.1.symm.trans second.2.1) (by simp)
  case ranOff.refused => exact absurd (first.2.1.symm.trans second.2.1) (by simp)

/-- What the three ways have in common. -/
theorem Leaves.clock_keys {m after : Machine w h} {keys : KeySet} {fault : Fault} {way : Stop}
    (left : m.Leaves keys fault after way) :
    after.clock = m.clock + 320 ∧ after.keys = keys := by
  cases way with
  | unfetched =>
      obtain ⟨_, _, rfl⟩ := left
      exact ⟨rfl, rfl⟩
  | refused =>
      obtain ⟨_, _, rfl⟩ := left
      exact ⟨rfl, rfl⟩
  | ranOff =>
      obtain ⟨_, _, _, instruction, done, _, effect, _, rfl⟩ := left
      exact ⟨congrArg (· + 320) effect.clock, effect.keys⟩

/-- No fault can stop a machine that waits for a key. -/
theorem running_of_faulted {m : Machine w h} {keys : KeySet} {fault : Fault}
    (ok : m.isOk = true) (faulted : (m.cycle keys).1.fault = some fault) : m.wait = none := by
  cases waiting : m.wait with
  | none => rfl
  | some x =>
      have still := Option.isNone_iff_eq_none.mp (cycle_pollsOnly keys ok waiting).ok
      rw [faulted] at still
      cases still

/-- One of the ways applies to a cycle that ends in a fault. -/
theorem exists_leaves (keys : KeySet) {m : Machine w h} {fault : Fault}
    (sound : m.stack.pointer ≤ 32) (ok : m.isOk = true) (running : m.wait = none)
    (faulted : (m.cycle keys).1.fault = some fault) :
    (m.cycle keys).2 = 320 ∧ ∃ way, m.Leaves keys fault (m.cycle keys).1 way := by
  by_cases short : m.memory.size < m.pc + 2
  · have stopped := cycle_of_unfetched keys ok running short
    rw [stopped] at faulted ⊢
    obtain rfl : .outOfBounds = fault := Option.some.inj faulted
    exact ⟨rfl, .unfetched, short, rfl, rfl⟩
  have whole := Nat.le_of_not_lt short
  have meets := meets_opcode ok running whole
  cases objection : m.objection? m.opcode with
  | some actual =>
      have stopped := cycle_of_objection keys sound meets objection
      rw [stopped] at faulted ⊢
      obtain rfl : actual = fault := Option.some.inj faulted
      exact ⟨rfl, .refused, whole, objection, rfl⟩
  | none =>
      obtain ⟨instruction, decoded, how, accepted⟩ := accepted_of_unopposed sound objection
      have fate := (cycle_of_accepted keys meets decoded accepted rfl).2
      have outside : m.memory.size ≤ ({ m with keys }.advance.perform instruction).pc := by
        rw [faulted] at fate
        apply Nat.le_of_not_lt
        intro inside
        rw [if_pos inside] at fate
        cases fate
      have stopped := cycle_of_ranOff keys meets decoded accepted outside
      rw [stopped] at faulted ⊢
      obtain rfl : .outOfBounds = fault := Option.some.inj faulted
      exact ⟨rfl, .ranOff, whole, objection, rfl, instruction, _, decoded,
        perform_fullEffect _ instruction, outside, rfl⟩

/-- A cycle that ends in a fault takes 320 clocks and leaves the machine in exactly one of the
three ways, which fix all of its state. -/
theorem stopping_cycle_exact (config : Config) (history : List Interaction) (keys : KeySet)
    (fault : Fault) :
    let m : Machine w h := (new config).through history
    let after := (m.cycle keys).1
    m.isOk = true → after.fault = some fault →
      (m.cycle keys).2 = 320 ∧ after.clock = m.clock + 320 ∧ after.keys = keys ∧
        ∃! way, m.Leaves keys fault after way := by
  intro m after ok faulted
  have wellFormed : m.WellFormed := (new_wellFormed config).through history
  have running := running_of_faulted ok faulted
  obtain ⟨cost, way, left⟩ := exists_leaves keys wellFormed.stack.pointer ok running faulted
  obtain ⟨clock, looked⟩ := left.clock_keys
  exact ⟨cost, clock, looked, way, left, fun other alike => alike.unique left⟩

/-- A call to a place outside memory: the call is open although the machine has stopped. -/
theorem stopping_cycle_exact_of_call :
    let history : List Interaction := [.act (.load [0x2F, 0xFF]), .act .validate]
    let m : Machine 8 4 := (new { memorySize := 0x204 }).through history
    let after := (m.cycle ⟨0x0100⟩).1
    m.isOk = true ∧ after.fault = some .outOfBounds ∧ after.stack.toList = [0x202] ∧
      after.pc = 0xFFF ∧ (m.cycle ⟨0x0100⟩).2 = 320 ∧
      ∃! way, m.Leaves ⟨0x0100⟩ .outOfBounds after way := by
  intro history m after
  have facts : m.isOk = true ∧ after.fault = some .outOfBounds ∧
      after.stack.toList = [0x202] ∧ after.pc = 0xFFF := by
    decide +kernel
  subst after m history
  obtain ⟨ok, faulted, opened, gone⟩ := facts
  obtain ⟨cost, _, _, left⟩ := stopping_cycle_exact (w := 8) (h := 4) { memorySize := 0x204 }
    [.act (.load [0x2F, 0xFF]), .act .validate] ⟨0x0100⟩ .outOfBounds ok faulted
  exact ⟨ok, faulted, opened, gone, cost, left⟩

end Machine

end Chip8
