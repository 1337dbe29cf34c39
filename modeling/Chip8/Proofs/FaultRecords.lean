import Chip8.Machine.Log
import Chip8.Proofs.HexText
import Chip8.Proofs.Stopping

/-!
# The error records of faults

A cycle that stops a machine reports one error, and no other cycle reports any.  Its record is
made from the program counter that the cycle leaves behind and shows the place of the word before
it.  That is where the fault was met if the word there was refused, or if it was carried out and
the next word would begin outside memory.  A word that is cut off has not moved the program
counter, and one that leads away has moved it elsewhere; their records show other places.
-/

set_option autoImplicit false

namespace Chip8

namespace Record

def isError (record : Record) : Bool := record.level = .error

/-- The text of a record tells the place that it shows. -/
theorem text_stopped_inj (fault : Fault) (clock : Nat) {first second : Nat} :
    (stopped fault first clock).text = (stopped fault second clock).text ↔ first = second := by
  constructor
  · intro same
    have upToClock := (String.append_left_inj _).mp ((String.append_left_inj _).mp same)
    have upToPlace := (String.append_left_inj _).mp upToClock
    exact Text.hex_inj.mp ((String.append_right_inj _).mp upToPlace)
  · rintro rfl
    rfl

end Record

namespace Machine

variable {w h : Nat}

def errors (m : Machine w h) (keys : KeySet) : List Record :=
  (m.cycleLog keys).filter Record.isError

theorem filter_isError_fetchLog (m : Machine w h) : m.fetchLog.filter Record.isError = [] := by
  unfold fetchLog
  split
  · rfl
  · split
    · split <;> rfl
    · rfl

theorem filter_isError_pollLog (keys : KeySet) (x : Fin 16) (m : Machine w h) :
    (m.pollLog keys x).filter Record.isError = [] := by
  unfold pollLog
  split
  · split <;> rfl
  · rfl

theorem filter_isError_stopLog (clock : Nat) (m : Machine w h) :
    (m.stopLog clock).filter Record.isError = m.stopLog clock := by
  unfold stopLog
  split <;> rfl

theorem errors_of_stopped (keys : KeySet) {m : Machine w h} (stopped : m.isOk = false) :
    m.errors keys = [] := by
  simp only [errors, cycleLog, stopped, Bool.false_eq_true, if_false, List.filter_nil]

/-- Only the last record of a cycle can be an error. -/
theorem errors_of_ok (keys : KeySet) {m : Machine w h} (ok : m.isOk = true) :
    m.errors keys = (m.cycle keys).1.stopLog m.clock := by
  rw [errors, cycleLog, if_pos ok, List.filter_append, filter_isError_stopLog]
  split
  · rw [filter_isError_pollLog, List.nil_append]
  · rw [filter_isError_fetchLog, List.nil_append]

/-- Where the program counter is after a cycle that stops the machine in a certain way. -/
def placeAfter (m : Machine w h) (keys : KeySet) : Stop → Nat
  | .unfetched => m.pc
  | .refused => m.pc + 2
  | .ranOff => m.landing keys m.opcode

theorem Leaves.pc_eq {m : Machine w h} {keys : KeySet} {fault : Fault} {way : Stop}
    (left : m.Leaves keys fault (m.cycle keys).1 way) (sound : m.stack.pointer ≤ 32)
    (ok : m.isOk = true) (running : m.wait = none) :
    (m.cycle keys).1.pc = m.placeAfter keys way := by
  cases way with
  | unfetched =>
      rw [left.2.2]
      rfl
  | refused =>
      rw [left.2.2]
      rfl
  | ranOff =>
      obtain ⟨whole, unopposed, _⟩ := left
      exact (cycle_of_unopposed keys sound (meets_opcode ok running whole) unopposed).1

/-- A machine never stops within the first word of memory. -/
theorem Leaves.two_le_pc {m after : Machine w h} {keys : KeySet} {fault : Fault} {way : Stop}
    (left : m.Leaves keys fault after way) (ample : 4 ≤ m.memory.size) : 2 ≤ after.pc := by
  cases way with
  | unfetched =>
      obtain ⟨short, _, rfl⟩ := left
      show 2 ≤ m.pc
      omega
  | refused =>
      obtain ⟨_, _, rfl⟩ := left
      exact Nat.le_add_left 2 m.pc
  | ranOff =>
      obtain ⟨_, _, _, instruction, done, _, _, outside, rfl⟩ := left
      show 2 ≤ done.pc
      omega

/-- The record of a stop shows the faulting word just if the program counter is one word past
it; so never after a word that was cut off, and always after one that was refused. -/
theorem placeAfter_eq_iff {m : Machine w h} {keys : KeySet} {way : Stop} :
    m.placeAfter keys way = m.pc + 2 ↔
      way = .refused ∨ way = .ranOff ∧ m.landing keys m.opcode = m.pc + 2 := by
  cases way with
  | unfetched => simp [placeAfter]
  | refused => simp [placeAfter]
  | ranOff => simp [placeAfter]

/-- A cycle reports an error just if it stops the machine, and then exactly one: its record shows
the place one word before that where the program counter is left.  It shows the place where the
cycle began just if a word was refused there or was carried out and led on to the next one. -/
theorem error_records_exact (config : Config) (history : List Interaction) (keys : KeySet) :
    let m : Machine w h := (new config).through history
    let after := (m.cycle keys).1
    (∀ fault, m.isOk = true → after.fault = some fault →
      ∃! way, m.Leaves keys fault after way ∧
        ∃ address, m.errors keys = [.stopped fault address m.clock] ∧
          address + 2 = m.placeAfter keys way ∧
          ((Record.stopped fault address m.clock).text =
              (Record.stopped fault m.pc m.clock).text ↔
            way = .refused ∨ way = .ranOff ∧ m.landing keys m.opcode = m.pc + 2)) ∧
      (m.isOk = false ∨ after.fault = none → m.errors keys = []) := by
  intro m after
  have wellFormed : m.WellFormed := (new_wellFormed config).through history
  have sound := wellFormed.stack.pointer
  refine ⟨?_, ?_⟩
  · intro fault ok faulted
    have running := running_of_faulted ok faulted
    have ample : 4 ≤ m.memory.size := by
      rw [wellFormed.size]
      exact Nat.le_trans (by decide) wellFormed.least
    obtain ⟨_, way, left⟩ := exists_leaves keys sound ok running faulted
    have past : after.pc - 2 + 2 = m.placeAfter keys way := by
      rw [Nat.sub_add_cancel (left.two_le_pc ample)]
      exact left.pc_eq sound ok running
    have record : m.errors keys = [.stopped fault (after.pc - 2) m.clock] := by
      rw [errors_of_ok keys ok, stopLog, faulted]
      rfl
    refine ⟨way, ⟨left, after.pc - 2, record, past, ?_⟩, fun other alike => alike.1.unique left⟩
    rw [Record.text_stopped_inj, ← placeAfter_eq_iff, ← past]
    exact Nat.add_right_cancel_iff.symm
  · rintro (stopped | unfaulted)
    · exact errors_of_stopped keys stopped
    · cases ok : m.isOk with
      | false => exact errors_of_stopped keys ok
      | true =>
          rw [errors_of_ok keys ok, stopLog, unfaulted]

/-- A word that is carried out at the very end of memory: its record shows where it is, and the
machine reports nothing more. -/
theorem error_records_exact_at_end :
    let m : Machine 8 4 := (new { memorySize := 0x204 }).through
      [.act (.load [0x12, 0x02, 0x60, 0x2A]), .act (.cycle ∅)]
    let stopped : Machine 8 4 := (new { memorySize := 0x204 }).through
      [.act (.load [0x12, 0x02, 0x60, 0x2A]), .act (.cycle ∅), .act (.cycle ∅)]
    m.isOk = true ∧ (m.cycle ∅).1.fault = some .outOfBounds ∧ m.pc = 0x202 ∧
      m.errors ∅ = [.stopped .outOfBounds 0x202 416] ∧
      stopped.isOk = false ∧ stopped.errors ∅ = [] := by
  intro m stopped
  have ready : m.isOk = true ∧ (m.cycle ∅).1.fault = some .outOfBounds ∧ m.pc = 0x202 ∧
      m.clock = 416 ∧ m.pc + 2 ≤ m.memory.size ∧ m.objection? m.opcode = none ∧
      m.landing ∅ m.opcode = 0x204 ∧ stopped.isOk = false := by
    decide +kernel
  subst m stopped
  obtain ⟨ok, faulted, place, clock, whole, unopposed, lands, halted⟩ := ready
  obtain ⟨way, ⟨left, address, record, past, _⟩, _⟩ :=
    (error_records_exact (w := 8) (h := 4) { memorySize := 0x204 }
      [.act (.load [0x12, 0x02, 0x60, 0x2A]), .act (.cycle ∅)] ∅).1 _ ok faulted
  have silent := (error_records_exact (w := 8) (h := 4) { memorySize := 0x204 }
    [.act (.load [0x12, 0x02, 0x60, 0x2A]), .act (.cycle ∅), .act (.cycle ∅)] ∅).2 (.inl halted)
  refine ⟨ok, faulted, place, ?_, halted, silent⟩
  cases way with
  | unfetched => exact absurd left.1 (Nat.not_lt_of_le whole)
  | refused => exact absurd (unopposed.symm.trans left.2.1) (by simp)
  | ranOff =>
      have here : address = 0x202 := Nat.add_right_cancel (past.trans lands)
      rw [record, here, clock]

/-- The record of a jump out of memory shows a place where no word is, not the jump. -/
theorem error_record_of_jump_elsewhere :
    let m : Machine 8 4 := (new { memorySize := 0x202 }).through [.act (.load [0x1F, 0xFF])]
    m.isOk = true ∧ (m.cycle ∅).1.fault = some .outOfBounds ∧ m.pc = 0x200 ∧
      m.errors ∅ = [.stopped .outOfBounds 0xFFD 0] ∧
      ¬ ∃ record, m.errors ∅ = [record] ∧
        record.text = (Record.stopped .outOfBounds m.pc m.clock).text := by
  intro m
  have facts : m.isOk = true ∧ (m.cycle ∅).1.fault = some .outOfBounds ∧ m.pc = 0x200 ∧
      m.clock = 0 ∧ (m.cycle ∅).1.pc = 0xFFF := by
    decide +kernel
  obtain ⟨ok, faulted, place, clock, gone⟩ := facts
  have errors : m.errors ∅ = [.stopped .outOfBounds 0xFFD 0] := by
    rw [errors_of_ok ∅ ok, stopLog, faulted, gone, clock]
    rfl
  refine ⟨ok, faulted, place, errors, ?_⟩
  rintro ⟨record, alone, text⟩
  rw [errors, List.singleton_inj] at alone
  rw [← alone, place, clock, Record.text_stopped_inj] at text
  cases text

end Machine

end Chip8
