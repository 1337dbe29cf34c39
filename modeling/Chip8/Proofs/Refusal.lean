import Chip8.Proofs.Calls
import Chip8.Proofs.KeyWait

/-!
# What stops a machine

The fault that a cycle ends with, told from the machine before it and the word that its
program counter points at.  A word can be refused for one reason at most, whatever else would
be wrong with it, because the reasons belong to different words; only a program counter that
ends up outside memory is a fault of a word that was carried out.
-/

set_option autoImplicit false

namespace Chip8

namespace Instruction

def Meaningless (word : UInt16) : Prop :=
  (family word = 0x5 ∨ family word = 0x9) ∧ (fieldN word).val ≠ 0 ∨
    family word = 0x8 ∧ (fieldN word).val ∈ [0x8, 0x9, 0xA, 0xB, 0xC, 0xD, 0xF] ∨
    family word = 0xE ∧ (fieldByte word).toNat ∉ [0x9E, 0xA1] ∨
    family word = 0xF ∧ (fieldByte word).toNat ∉
      [0x07, 0x0A, 0x15, 0x18, 0x1E, 0x29, 0x33, 0x55, 0x65]

instance (word : UInt16) : Decidable (Meaningless word) :=
  inferInstanceAs (Decidable (_ ∧ _ ∨ _ ∧ _ ∨ _ ∧ _ ∨ _ ∧ _))

def CallsMachineCode (word : UInt16) : Prop :=
  family word = 0x0 ∧ word ≠ 0x00E0 ∧ word ≠ 0x00EE

instance (word : UInt16) : Decidable (CallsMachineCode word) :=
  inferInstanceAs (Decidable (_ ∧ _))

def MaySkip (word : UInt16) : Prop := family word ∈ [0x3, 0x4, 0x5, 0x9, 0xE]

instance (word : UInt16) : Decidable (MaySkip word) := inferInstanceAs (Decidable (_ ∈ _))

inductive WrittenAs (word : UInt16) : Instruction → Prop where
  | clearScreen (whole : word = 0x00E0) : WrittenAs word .clearScreen
  | ret (whole : word = 0x00EE) : WrittenAs word .ret
  | system (code : CallsMachineCode word) : WrittenAs word (.system word.toNat)
  | jump (leading : family word = 0x1) : WrittenAs word (.jump (fieldAddress word))
  | call (leading : family word = 0x2) : WrittenAs word (.call (fieldAddress word))
  | byteEq (leading : family word = 0x3) :
      WrittenAs word (.skip (.byteEq (fieldX word) (fieldByte word)))
  | byteNe (leading : family word = 0x4) :
      WrittenAs word (.skip (.byteNe (fieldX word) (fieldByte word)))
  | registerEq (leading : family word = 0x5) (last : (fieldN word).val = 0) :
      WrittenAs word (.skip (.registerEq (fieldX word) (fieldY word)))
  | setByte (leading : family word = 0x6) :
      WrittenAs word (.setByte (fieldX word) (fieldByte word))
  | addByte (leading : family word = 0x7) :
      WrittenAs word (.addByte (fieldX word) (fieldByte word))
  | combine (leading : family word = 0x8) {operation : Operation}
      (last : Operation.ofCode? (fieldN word) = some operation) :
      WrittenAs word (.combine operation (fieldX word) (fieldY word))
  | registerNe (leading : family word = 0x9) (last : (fieldN word).val = 0) :
      WrittenAs word (.skip (.registerNe (fieldX word) (fieldY word)))
  | setIndex (leading : family word = 0xA) :
      WrittenAs word (.setIndex (UInt16.ofNat (fieldAddress word)))
  | jumpFrom (leading : family word = 0xB) : WrittenAs word (.jumpFrom (fieldAddress word))
  | random (leading : family word = 0xC) :
      WrittenAs word (.random (fieldX word) (fieldByte word))
  | draw (leading : family word = 0xD) :
      WrittenAs word (.draw (fieldX word) (fieldY word) (fieldN word))
  | keyDown (leading : family word = 0xE) (low : (fieldByte word).toNat = 0x9E) :
      WrittenAs word (.skip (.keyDown (fieldX word)))
  | keyUp (leading : family word = 0xE) (low : (fieldByte word).toNat = 0xA1) :
      WrittenAs word (.skip (.keyUp (fieldX word)))
  | readDelay (leading : family word = 0xF) (low : (fieldByte word).toNat = 0x07) :
      WrittenAs word (.readDelay (fieldX word))
  | awaitKey (leading : family word = 0xF) (low : (fieldByte word).toNat = 0x0A) :
      WrittenAs word (.awaitKey (fieldX word))
  | setDelay (leading : family word = 0xF) (low : (fieldByte word).toNat = 0x15) :
      WrittenAs word (.setDelay (fieldX word))
  | setSound (leading : family word = 0xF) (low : (fieldByte word).toNat = 0x18) :
      WrittenAs word (.setSound (fieldX word))
  | addIndex (leading : family word = 0xF) (low : (fieldByte word).toNat = 0x1E) :
      WrittenAs word (.addIndex (fieldX word))
  | glyph (leading : family word = 0xF) (low : (fieldByte word).toNat = 0x29) :
      WrittenAs word (.glyph (fieldX word))
  | decimal (leading : family word = 0xF) (low : (fieldByte word).toNat = 0x33) :
      WrittenAs word (.decimal (fieldX word))
  | store (leading : family word = 0xF) (low : (fieldByte word).toNat = 0x55) :
      WrittenAs word (.store (fieldX word))
  | load (leading : family word = 0xF) (low : (fieldByte word).toNat = 0x65) :
      WrittenAs word (.load (fieldX word))

theorem family_lt (word : UInt16) : family word < 16 := by
  have small : word.toNat < 65536 := word.toNat_lt
  rw [family]
  omega

theorem ne_return {word : UInt16} (notSystem : family word ≠ 0x0) : word ≠ 0x00EE := by
  rintro rfl
  exact notSystem (by decide)

theorem ofCode?_eq_none_iff (n : Fin 16) :
    Operation.ofCode? n = none ↔ n.val ∈ [0x8, 0x9, 0xA, 0xB, 0xC, 0xD, 0xF] := by
  revert n
  decide

theorem maySkip_of_written {word : UInt16} {condition : Condition}
    (how : WrittenAs word (.skip condition)) : MaySkip word := by
  cases how <;> simp [MaySkip, *]

inductive Reading (word : UInt16) : Option Instruction → Prop where
  | meaningless (unread : Meaningless word) : Reading word none
  | written {instruction : Instruction} (how : WrittenAs word instruction) :
      Reading word (some instruction)

theorem reading_ofSystemWord {word : UInt16} (leading : family word = 0x0) :
    WrittenAs word (ofSystemWord word) := by
  unfold ofSystemWord
  split
  · exact .clearScreen ‹_›
  · split
    · exact .ret ‹_›
    · exact .system ⟨leading, ‹_›, ‹_›⟩

theorem reading_ofKeyWord? {word : UInt16} (leading : family word = 0xE) :
    Reading word (ofKeyWord? word) := by
  unfold ofKeyWord?
  split
  · rename_i down
    exact .written (.keyDown leading (congrArg UInt8.toNat down))
  · rename_i notDown
    split
    · rename_i up
      exact .written (.keyUp leading (congrArg UInt8.toNat up))
    · rename_i notUp
      refine .meaningless (.inr (.inr (.inl ⟨leading, ?_⟩)))
      simpa [← UInt8.toNat_inj] using And.intro notDown notUp

theorem reading_ofMiscWord? {word : UInt16} (leading : family word = 0xF) :
    Reading word (ofMiscWord? word) := by
  unfold ofMiscWord?
  dsimp only
  split
  · exact .written (.readDelay leading ‹_›)
  · exact .written (.awaitKey leading ‹_›)
  · exact .written (.setDelay leading ‹_›)
  · exact .written (.setSound leading ‹_›)
  · exact .written (.addIndex leading ‹_›)
  · exact .written (.glyph leading ‹_›)
  · exact .written (.decimal leading ‹_›)
  · exact .written (.store leading ‹_›)
  · exact .written (.load leading ‹_›)
  · refine .meaningless (.inr (.inr (.inr ⟨leading, ?_⟩)))
    simp_all

theorem reading_decode? (word : UInt16) : Reading word (decode? word) := by
  have top := family_lt word
  unfold decode?
  dsimp only
  split
  case h_1 leading => exact .written (reading_ofSystemWord leading)
  case h_2 leading => exact .written (.jump leading)
  case h_3 leading => exact .written (.call leading)
  case h_4 leading => exact .written (.byteEq leading)
  case h_5 leading => exact .written (.byteNe leading)
  case h_6 leading =>
    split
    · rename_i last
      exact .written (.registerEq leading (congrArg Fin.val last))
    · rename_i other
      exact .meaningless (.inl ⟨.inl leading, fun last => other (Fin.ext last)⟩)
  case h_7 leading => exact .written (.setByte leading)
  case h_8 leading => exact .written (.addByte leading)
  case h_9 leading =>
    cases last : Operation.ofCode? (fieldN word) with
    | none => exact .meaningless (.inr (.inl ⟨leading, (ofCode?_eq_none_iff _).mp last⟩))
    | some operation => exact .written (.combine leading last)
  case h_10 leading =>
    split
    · rename_i last
      exact .written (.registerNe leading (congrArg Fin.val last))
    · rename_i other
      exact .meaningless (.inl ⟨.inr leading, fun last => other (Fin.ext last)⟩)
  case h_11 leading => exact .written (.setIndex leading)
  case h_12 leading => exact .written (.jumpFrom leading)
  case h_13 leading => exact .written (.random leading)
  case h_14 leading => exact .written (.draw leading)
  case h_15 leading => exact reading_ofKeyWord? leading
  case h_16 =>
    apply reading_ofMiscWord?
    grind

end Instruction

namespace Machine

open Instruction

variable {w h : Nat}

def opcode (m : Machine w h) : UInt16 :=
  (m.memory.byte m.pc).toUInt16 * 256 + (m.memory.byte (m.pc + 1)).toUInt16

/-- Whether a word works on a block of memory that reaches past the end. -/
def Overreaches (m : Machine w h) (word : UInt16) : Prop :=
  family word = 0xF ∧ (fieldByte word).toNat = 0x33 ∧ m.memory.size < m.index.toNat + 3 ∨
    family word = 0xF ∧ (fieldByte word).toNat ∈ [0x55, 0x65] ∧
      m.memory.size < m.index.toNat + (fieldX word).val + 1 ∨
    family word = 0xD ∧ 0 < (fieldN word).val ∧ (0 < w ∧ 0 < h) ∧
      m.memory.size < m.index.toNat + (fieldN word).val

instance (m : Machine w h) (word : UInt16) : Decidable (m.Overreaches word) :=
  inferInstanceAs (Decidable (_ ∧ _ ∨ _ ∧ _ ∨ _ ∧ _))

def Skips (m : Machine w h) (keys : KeySet) (word : UInt16) : Prop :=
  family word = 0x3 ∧ m.register (fieldX word) = fieldByte word ∨
    family word = 0x4 ∧ m.register (fieldX word) ≠ fieldByte word ∨
    family word = 0x5 ∧ m.register (fieldX word) = m.register (fieldY word) ∨
    family word = 0x9 ∧ m.register (fieldX word) ≠ m.register (fieldY word) ∨
    family word = 0xE ∧ (fieldByte word).toNat = 0x9E ∧
      keys.contains (m.register (fieldX word)).toNat = true ∨
    family word = 0xE ∧ (fieldByte word).toNat = 0xA1 ∧
      keys.contains (m.register (fieldX word)).toNat = false

instance (m : Machine w h) (keys : KeySet) (word : UInt16) : Decidable (m.Skips keys word) :=
  inferInstanceAs (Decidable (_ ∧ _ ∨ _ ∧ _ ∨ _ ∧ _ ∨ _ ∧ _ ∨ _ ∧ _ ∨ _ ∧ _))

/-- Where a machine goes on that carries out a word under the given keys. -/
def landing (m : Machine w h) (keys : KeySet) (word : UInt16) : Nat :=
  if word = 0x00EE then m.stack.toList.headD 0
  else if family word = 0x1 ∨ family word = 0x2 then fieldAddress word
  else if family word = 0xB then fieldAddress word + m.jumpOffset
  else if m.Skips keys word then m.pc + 4
  else m.pc + 2

/-- What a machine holds against a word, if anything: calls and returns that the stack has no
room or no address for, words that mean nothing, and blocks of memory that reach past the end.
No word gives two reasons. -/
def objection? (m : Machine w h) (word : UInt16) : Option Fault :=
  if family word = 0x2 ∧ m.stack.depth = 32 then some .stackOverflow
  else if word = 0x00EE ∧ m.stack.depth = 0 then some .stackUnderflow
  else if Meaningless word ∨ CallsMachineCode word ∧ m.config.strict = true then
    some .unexpectedOpcode
  else if m.Overreaches word then some .outOfBounds
  else none

def wordRefusal? (m : Machine w h) (word : UInt16) : Option Fault :=
  match decode? word with
  | none => some .unexpectedOpcode
  | some instruction => m.refusal? instruction

theorem refusal?_draw (m : Machine w h) (x y rows : Fin 16) :
    m.refusal? (.draw x y rows) =
      if 0 < rows.val ∧ (0 < w ∧ 0 < h) ∧ m.memory.size < m.index.toNat + rows.val then
        some .outOfBounds
      else none := by
  simp only [refusal?, drawsNothing, blockRefusal?]
  grind

theorem wordRefusal?_eq {m : Machine w h} (sound : m.stack.pointer ≤ 32) (word : UInt16) :
    m.wordRefusal? word = m.objection? word := by
  have how := reading_decode? word
  rw [wordRefusal?, objection?]
  generalize decode? word = reading at how
  cases how with
  | meaningless unread =>
      have apart : family word ≠ 0 ∧ family word ≠ 2 := by
        rcases unread with ⟨five | nine, _⟩ | ⟨eight, _⟩ | ⟨fourteen, _⟩ | ⟨fifteen, _⟩ <;> omega
      simp [unread, apart.2, ne_return apart.1]
  | written how =>
      cases how with
      | clearScreen whole =>
          have leading : family 0x00E0 = 0 := by decide
          simp [whole, refusal?, Meaningless, CallsMachineCode, Overreaches, leading]
      | ret whole =>
          have leading : family 0x00EE = 0 := by decide
          simp [whole, refusal?_ret, Meaningless, CallsMachineCode, Overreaches, leading]
      | system code =>
          obtain ⟨leading, notClear, notReturn⟩ := code
          simp [refusal?, Meaningless, CallsMachineCode, Overreaches, leading, notClear, notReturn]
      | call leading =>
          simp [refusal?_call sound, Meaningless, CallsMachineCode, Overreaches, leading, ne_return]
      | combine leading last =>
          have meant := (ofCode?_eq_none_iff (fieldN word)).not.mp (by simp [last])
          simp [refusal?, Meaningless, CallsMachineCode, Overreaches, leading, ne_return, meant]
      | registerEq leading last | registerNe leading last =>
          simp [refusal?, Meaningless, CallsMachineCode, Overreaches, leading, last, ne_return]
      | keyDown leading low | keyUp leading low | decimal leading low | readDelay leading low
      | awaitKey leading low | setDelay leading low | setSound leading low | addIndex leading low
      | glyph leading low | store leading low | load leading low =>
          simp [refusal?, blockRefusal?, Meaningless, CallsMachineCode, Overreaches, leading, low,
            ne_return, Nat.add_assoc]
      | draw leading =>
          simp [refusal?_draw, Meaningless, CallsMachineCode, Overreaches, leading, ne_return]
      | jump leading | byteEq leading | byteNe leading | setByte leading | addByte leading
      | setIndex leading | jumpFrom leading | random leading =>
          simp [refusal?, Meaningless, CallsMachineCode, Overreaches, leading, ne_return]

/-- The condition of a skip holds just if its word skips. -/
theorem holds_iff_skips {m : Machine w h} {word : UInt16} {condition : Condition}
    (how : WrittenAs word (.skip condition)) (keys : KeySet) :
    { m with keys }.advance.holds condition = true ↔ m.Skips keys word := by
  have sameRegister : ∀ x, { m with keys }.advance.register x = m.register x := fun _ => rfl
  have sameKeys : { m with keys }.advance.keys = keys := rfl
  cases how with
  | byteEq leading | byteNe leading | registerEq leading last | registerNe leading last =>
      simp [holds, Skips, sameRegister, leading]
  | keyDown leading low | keyUp leading low =>
      simp [holds, Skips, sameRegister, sameKeys, leading, low]

theorem maySkip_of_skips {m : Machine w h} {keys : KeySet} {word : UInt16}
    (skips : m.Skips keys word) : MaySkip word := by
  rcases skips with ⟨leading, _⟩ | ⟨leading, _⟩ | ⟨leading, _⟩ | ⟨leading, _⟩ | ⟨leading, _⟩ |
    ⟨leading, _⟩ <;>
  · rw [MaySkip, leading]
    decide

/-- A word that may skip leads two words on if it does, and else to the next one. -/
theorem landing_of_maySkip {m : Machine w h} {word : UInt16} (maySkip : MaySkip word)
    (keys : KeySet) :
    m.landing keys word = if m.Skips keys word then m.pc + 4 else m.pc + 2 := by
  have leading : family word ≠ 0 ∧ family word ≠ 1 ∧ family word ≠ 2 ∧ family word ≠ 0xB := by
    simp only [MaySkip, List.mem_cons, List.not_mem_nil, or_false] at maySkip
    omega
  obtain ⟨notSystem, notJump, notCall, notJumpFrom⟩ := leading
  simp [landing, ne_return notSystem, notJump, notCall, notJumpFrom]

/-- An instruction that is not refused leaves the program counter where its word sends it. -/
theorem pcAfter_eq_landing {m : Machine w h} {word : UInt16} {instruction : Instruction}
    (how : WrittenAs word instruction) (accepted : m.advance.refusal? instruction = none)
    (keys : KeySet) :
    { m with keys }.advance.pcAfter instruction = m.landing keys word := by
  have past : { m with keys }.advance.pc = m.pc + 2 := rfl
  cases instruction with
  | skip condition =>
      simp only [pcAfter, holds_iff_skips how, landing_of_maySkip (maySkip_of_written how), past]
      rfl
  | clearScreen =>
      cases how with
      | clearScreen whole =>
          have leading : family 0x00E0 = 0 := by decide
          simp [whole, pcAfter, landing, Skips, leading, past]
  | ret =>
      cases how with
      | ret whole =>
          have inUse : m.stack.pointer < 32 := by
            have some : m.stack.isEmpty = false := isEmpty_of_accepted accepted
            simpa [CallStack.isEmpty] using some
          obtain ⟨address, top, list⟩ := CallStack.toList_eq_cons inUse
          have sameStack : { m with keys }.advance.stack = m.stack := rfl
          simp [whole, pcAfter, landing, sameStack, top, list]
  | system address =>
      cases how with
      | system code =>
          obtain ⟨leading, notClear, notReturn⟩ := code
          simp [pcAfter, landing, Skips, leading, notReturn, past]
  | jump target | call target =>
      cases how
      simp [pcAfter, landing, ne_return, *]
  | jumpFrom base =>
      cases how with
      | jumpFrom leading =>
          simp [pcAfter, landing, ne_return, leading]
          rfl
  | _ =>
      cases how
      simp [pcAfter, landing, Skips, ne_return, *]

/-! ## The ways of a cycle that does not wait -/

theorem fetch?_of_short {m : Machine w h} (short : m.memory.size < m.pc + 2) :
    m.fetch? = none := if_neg (Nat.not_le_of_lt short)

theorem meets_opcode {m : Machine w h} (ok : m.isOk = true) (running : m.wait = none)
    (whole : m.pc + 2 ≤ m.memory.size) : m.Meets m.opcode := ⟨ok, running, if_pos whole⟩

theorem cycle_of_unfetched (keys : KeySet) {m : Machine w h} (ok : m.isOk = true)
    (running : m.wait = none) (short : m.memory.size < m.pc + 2) :
    m.cycle keys = ({ m with keys }.stop .outOfBounds).elapse Cost.fetch := by
  have unfetched : { m with keys }.fetch? = none := fetch?_of_short short
  rw [cycle_of_running keys ok running, step, unfetched]
  rfl

theorem execute_of_refused {m : Machine w h} {word : UInt16} {fault : Fault}
    (refusal : m.wordRefusal? word = some fault) : m.execute word = (m.stop fault, 0) := by
  rw [wordRefusal?] at refusal
  rw [execute]
  cases decoded : decode? word with
  | none =>
      simp only [decoded, Option.some.injEq] at refusal ⊢
      rw [refusal]
  | some instruction =>
      simp only [decoded] at refusal ⊢
      simp only [refusal]

/-- A word that is held against is not carried out at all. -/
theorem cycle_of_objection (keys : KeySet) {m : Machine w h} {word : UInt16} {fault : Fault}
    (sound : m.stack.pointer ≤ 32) (meets : m.Meets word)
    (objection : m.objection? word = some fault) :
    m.cycle keys = ({ m with keys }.advance.stop fault).elapse Cost.fetch := by
  have fetched : { m with keys }.fetch? = some word := meets.fetched
  have refusal : { m with keys }.advance.wordRefusal? word = some fault :=
    (wordRefusal?_eq (m := { m with keys }.advance) sound word).trans objection
  have stepped : { m with keys }.step = ({ m with keys }.advance.stop fault, 0) := by
    rw [step, fetched]
    exact execute_of_refused refusal
  rw [cycle_of_running keys meets.ok meets.running, stepped]
  rfl

theorem accepted_of_unopposed {m : Machine w h} {word : UInt16} (sound : m.stack.pointer ≤ 32)
    (unopposed : m.objection? word = none) :
    ∃ instruction, decode? word = some instruction ∧ WrittenAs word instruction ∧
      m.advance.refusal? instruction = none := by
  have how := reading_decode? word
  have refusal : m.advance.wordRefusal? word = none :=
    (wordRefusal?_eq (m := m.advance) sound word).trans unopposed
  rw [wordRefusal?] at refusal
  generalize decode? word = reading at how refusal
  cases how with
  | meaningless unread => cases refusal
  | @written instruction how => exact ⟨instruction, rfl, how, refusal⟩

/-- A word that is not held against is carried out, and the only fault left is a program
counter outside memory. -/
theorem cycle_of_unopposed (keys : KeySet) {m : Machine w h} {word : UInt16}
    (sound : m.stack.pointer ≤ 32) (meets : m.Meets word)
    (unopposed : m.objection? word = none) :
    (m.cycle keys).1.pc = m.landing keys word ∧
      (m.cycle keys).1.fault =
        if m.memory.size ≤ m.landing keys word then some .outOfBounds else none := by
  obtain ⟨instruction, decoded, how, accepted⟩ := accepted_of_unopposed sound unopposed
  have lands : ({ m with keys }.advance.perform instruction).pc = m.landing keys word :=
    (perform_fullEffect _ instruction).pc.trans (pcAfter_eq_landing how accepted keys)
  obtain ⟨pc, fault⟩ := cycle_of_accepted keys meets decoded accepted rfl
  refine ⟨pc.trans lands, ?_⟩
  rw [fault, lands]
  by_cases inside : m.landing keys word < m.memory.size
  · rw [if_pos inside, if_neg (Nat.not_le_of_lt inside)]
  · rw [if_neg inside, if_pos (Nat.le_of_not_lt inside)]

/-- Exactly when a cycle stops a machine, and with which fault.  A wait never does.  Otherwise
a word that is cut off by the end of memory comes first, then what the machine holds against
the word, and last that the word was carried out but sent the program counter out of memory. -/
theorem fault_cycle_exact (config : Config) (history : List Interaction) (keys : KeySet) :
    let m : Machine w h := (new config).through history
    m.isOk = true →
      (m.isWaiting = true → (m.cycle keys).1.fault = none) ∧
        (m.isWaiting = false →
          ((m.cycle keys).1.fault =
            if m.memory.size < m.pc + 2 then some .outOfBounds
            else if let some fault := m.objection? m.opcode then some fault
            else if m.memory.size ≤ m.landing keys m.opcode then some .outOfBounds
            else none) ∧
          (m.pc + 2 ≤ m.memory.size → m.objection? m.opcode = none →
            (m.cycle keys).1.pc = m.landing keys m.opcode)) := by
  intro m ok
  have wellFormed : m.WellFormed := (new_wellFormed config).through history
  have sound := wellFormed.stack.pointer
  refine ⟨?_, ?_⟩
  · intro waits
    obtain ⟨x, waiting⟩ := Option.isSome_iff_exists.mp waits
    exact Option.isNone_iff_eq_none.mp (cycle_pollsOnly keys ok waiting).ok
  · intro unwaiting
    have running : m.wait = none := by simpa [isWaiting] using unwaiting
    by_cases short : m.memory.size < m.pc + 2
    · refine ⟨?_, fun whole => absurd short (Nat.not_lt_of_le whole)⟩
      rw [if_pos short, cycle_of_unfetched keys ok running short]
      rfl
    · have meets := meets_opcode ok running (Nat.le_of_not_lt short)
      rw [if_neg short]
      cases objection : m.objection? m.opcode with
      | some fault =>
          refine ⟨?_, fun _ unopposed => by cases unopposed⟩
          rw [cycle_of_objection keys sound meets objection]
          rfl
      | none =>
          obtain ⟨pc, fault⟩ := cycle_of_unopposed keys sound meets objection
          exact ⟨fault, fun _ _ => pc⟩

/-- A skip over the end of memory by exactly no byte, and a wait that goes on. -/
theorem fault_cycle_exact_of_skip :
    let m : Machine 8 4 := (new { memorySize := 0x204 }).through [.act (.load [0x30, 0x00])]
    let waiting : Machine 8 4 := (new { memorySize := 0x204 }).through
      [.act (.load [0xF0, 0x0A]), .act (.cycle ⟨0x0001⟩)]
    m.isOk = true ∧ m.isWaiting = false ∧ m.pc + 2 ≤ m.memory.size ∧
      m.objection? m.opcode = none ∧ m.landing ∅ m.opcode = m.memory.size ∧
      (m.cycle ∅).1.fault = some .outOfBounds ∧ (m.cycle ∅).1.pc = m.memory.size ∧
      waiting.isOk = true ∧ waiting.isWaiting = true ∧ (waiting.cycle ⟨0x0002⟩).1.fault = none := by
  intro m waiting
  have ready : m.isOk = true ∧ m.isWaiting = false ∧ m.pc + 2 ≤ m.memory.size ∧
      m.objection? m.opcode = none ∧ m.landing ∅ m.opcode = m.memory.size := by
    decide +kernel
  have waits : waiting.isOk = true ∧ waiting.isWaiting = true := by decide +kernel
  -- Compared by name the machines would be run; without the names they are the same text.
  subst m waiting
  obtain ⟨ok, unwaiting, whole, unopposed, lands⟩ := ready
  obtain ⟨fault, pc⟩ := (fault_cycle_exact (w := 8) (h := 4) { memorySize := 0x204 }
    [.act (.load [0x30, 0x00])] ∅ ok).2 unwaiting
  have still := (fault_cycle_exact (w := 8) (h := 4) { memorySize := 0x204 }
    [.act (.load [0xF0, 0x0A]), .act (.cycle ⟨0x0001⟩)] ⟨0x0002⟩ waits.1).1 waits.2
  refine ⟨ok, unwaiting, whole, unopposed, lands, ?_, ?_, waits.1, waits.2, still⟩
  · rw [fault, if_neg (Nat.not_lt_of_le whole)]
    simp only [unopposed, lands, Nat.le_refl, if_true]
  · exact (pc whole unopposed).trans lands

end Machine

end Chip8
