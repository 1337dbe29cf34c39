import Chip8.Proofs.Refusal

/-!
# Arithmetic with a flag

The operations on two registers in numbers instead of bytes.  A carry is the digit that the sum
has too many, a dropped bit the digit that a half or a double has too many, and the flag of a
difference says that there was nothing to borrow.  Whatever registers a word names, its operands
are those before it, and register F holds the flag afterwards, also where a result was due to it.
-/

set_option autoImplicit false

namespace Chip8

/-- The operand of a shift, in numbers: the second in the older profile, the first in the newer. -/
def ShiftProfile.source (vx vy : Nat) : ShiftProfile → Nat
  | .cosmac => vy
  | .modern => vx

namespace Operation

/-- The result and the flag that belong to two operands, by the last digit of the word. -/
def Yields (shifts : ShiftProfile) (vx vy result flag : Nat) : Nat → Prop
  | 0x4 => 256 * flag + result = vx + vy
  | 0x5 => result = (256 + vx - vy) % 256 ∧ (flag = 1 ↔ vy ≤ vx)
  | 0x6 => 2 * result + flag = shifts.source vx vy
  | 0x7 => result = (256 + vy - vx) % 256 ∧ (flag = 1 ↔ vx ≤ vy)
  | 0xE => 256 * flag + result = 2 * shifts.source vx vy
  | _ => False

theorem toNat_operand (shifts : ShiftProfile) (vx vy : UInt8) :
    (shifts.operand vx vy).toNat = shifts.source vx.toNat vy.toNat := by
  cases shifts <;> rfl

theorem addWithCarry_spec (a b : UInt8) :
    (addWithCarry a b).2 ≤ 1 ∧
      256 * (addWithCarry a b).2.toNat + (addWithCarry a b).1.toNat = a.toNat + b.toNat := by
  have small : a.toNat < 256 ∧ b.toNat < 256 := ⟨a.toNat_lt, b.toNat_lt⟩
  simp only [addWithCarry, UInt8.toNat_add]
  split
  · simp
    omega
  · simp
    omega

theorem subtractWithoutBorrow_spec (a b : UInt8) :
    (subtractWithoutBorrow a b).2 ≤ 1 ∧
      (subtractWithoutBorrow a b).1.toNat = (256 + a.toNat - b.toNat) % 256 ∧
      ((subtractWithoutBorrow a b).2.toNat = 1 ↔ b.toNat ≤ a.toNat) := by
  have small : b.toNat < 256 := b.toNat_lt
  simp only [subtractWithoutBorrow, UInt8.toNat_sub, UInt8.le_iff_toNat_le]
  split
  · simp [*]
    omega
  · simp [*]
    omega

theorem shiftRight_spec (shifts : ShiftProfile) (vx vy : UInt8) :
    (shifts.shiftRight vx vy).2 ≤ 1 ∧
      2 * (shifts.shiftRight vx vy).1.toNat + (shifts.shiftRight vx vy).2.toNat =
        shifts.source vx.toNat vy.toNat := by
  rw [← toNat_operand]
  generalize operand : shifts.operand vx vy = b
  have half : (b >>> 1).toNat = b.toNat / 2 := by simp [Nat.shiftRight_eq_div_pow]
  have dropped : (b &&& 1).toNat = b.toNat % 2 := by simp [Nat.and_one_is_mod]
  simp only [ShiftProfile.shiftRight, operand, UInt8.le_iff_toNat_le, half, dropped]
  exact ⟨Nat.le_of_lt_succ (Nat.mod_lt _ (by decide)), Nat.div_add_mod _ 2⟩

theorem shiftLeft_spec (shifts : ShiftProfile) (vx vy : UInt8) :
    (shifts.shiftLeft vx vy).2 ≤ 1 ∧
      256 * (shifts.shiftLeft vx vy).2.toNat + (shifts.shiftLeft vx vy).1.toNat =
        2 * shifts.source vx.toNat vy.toNat := by
  rw [← toNat_operand]
  generalize operand : shifts.operand vx vy = b
  have small : b.toNat < 256 := b.toNat_lt
  have double : (b <<< 1).toNat = 2 * b.toNat % 256 := by
    simp [Nat.shiftLeft_eq, Nat.mul_comm]
  have dropped : (b >>> 7).toNat = b.toNat / 128 := by simp [Nat.shiftRight_eq_div_pow]
  simp only [ShiftProfile.shiftLeft, operand, UInt8.le_iff_toNat_le, double, dropped]
  constructor
  · exact Nat.le_of_lt_succ (Nat.div_lt_of_lt_mul small)
  · omega

/-- The operations that answer a flag, by their digits. -/
theorem yields_apply (shifts : ShiftProfile) (vx vy : UInt8) {n : Nat}
    (flagged : n ∈ [0x4, 0x5, 0x6, 0x7, 0xE]) :
    ∃ operation result flag, ofCode? n = some operation ∧
      operation.apply shifts vx vy = (result, some flag) ∧ flag ≤ 1 ∧
      Yields shifts vx.toNat vy.toNat result.toNat flag.toNat n := by
  simp only [List.mem_cons, List.not_mem_nil, or_false] at flagged
  rcases flagged with rfl | rfl | rfl | rfl | rfl
  · exact ⟨.add, _, _, rfl, rfl, addWithCarry_spec vx vy⟩
  · exact ⟨.subtract, _, _, rfl, rfl, subtractWithoutBorrow_spec vx vy⟩
  · exact ⟨.shiftRight, _, _, rfl, rfl, shiftRight_spec shifts vx vy⟩
  · exact ⟨.subtractFrom, _, _, rfl, rfl, subtractWithoutBorrow_spec vy vx⟩
  · exact ⟨.shiftLeft, _, _, rfl, rfl, shiftLeft_spec shifts vx vy⟩

end Operation

namespace Instruction

def plainResult? (word : UInt16) (vx vy : UInt8) : Option UInt8 :=
  match family word, (fieldN word).val with
  | 0x6, _ => some (fieldByte word)
  | 0x7, _ => some (vx + fieldByte word)
  | 0x8, 0x0 => some vy
  | 0x8, 0x1 => some (vx ||| vy)
  | 0x8, 0x2 => some (vx &&& vy)
  | 0x8, 0x3 => some (vx ^^^ vy)
  | _, _ => none

end Instruction

namespace Machine

open Instruction

variable {w h : Nat}

/-- The registers after a word that combines two of them. -/
theorem register_cycle_of_combine (keys : KeySet) {m : Machine w h} {word : UInt16}
    {operation : Operation} {result : UInt8 × Option UInt8} (meets : m.Meets word)
    (leading : family word = 0x8) (code : Operation.ofCode? (fieldN word) = some operation)
    (answers : operation.apply m.config.shifts (m.register (fieldX word))
      (m.register (fieldY word)) = result) (z : Fin 16) :
    (m.cycle keys).1.register z =
      if z = .last 15 ∧ result.2.isSome then result.2.getD 0
      else if z = fieldX word then result.1
      else m.register z := by
  have decoded : decode? word = some (.combine operation (fieldX word) (fieldY word)) := by
    simp only [decode?, leading, code, Option.map_some]
  subst answers
  exact register_cycle_of_executes keys (executes?_of_meets meets decoded rfl) z

theorem register_cycle_of_unflagged (keys : KeySet) {m : Machine w h} {word : UInt16}
    {operation : Operation} {value : UInt8} (meets : m.Meets word)
    (leading : family word = 0x8) (code : Operation.ofCode? (fieldN word) = some operation)
    (answers : operation.apply m.config.shifts (m.register (fieldX word))
      (m.register (fieldY word)) = (value, none)) (z : Fin 16) :
    (m.cycle keys).1.register z = if z = fieldX word then value else m.register z := by
  rw [register_cycle_of_combine keys meets leading code answers]
  simp only [Option.isSome_none, Bool.false_eq_true, and_false, if_false]

/-- A word that writes no flag writes its result and nothing else. -/
theorem register_cycle_of_plain (keys : KeySet) {m : Machine w h} {word : UInt16} {value : UInt8}
    (meets : m.Meets word)
    (computed :
      plainResult? word (m.register (fieldX word)) (m.register (fieldY word)) = some value)
    (z : Fin 16) :
    (m.cycle keys).1.register z = if z = fieldX word then value else m.register z := by
  unfold plainResult? at computed
  split at computed <;> cases computed
  case h_1 leading =>
    have decoded : decode? word = some (.setByte (fieldX word) (fieldByte word)) := by
      simp only [decode?, leading]
    exact register_cycle_of_executes keys (executes?_of_meets meets decoded rfl) z
  case h_2 leading =>
    have decoded : decode? word = some (.addByte (fieldX word) (fieldByte word)) := by
      simp only [decode?, leading]
    exact register_cycle_of_executes keys (executes?_of_meets meets decoded rfl) z
  case h_3 leading last =>
    have code : Operation.ofCode? (fieldN word) = some .copy := congrArg Operation.ofCode? last
    exact register_cycle_of_unflagged keys meets leading code rfl z
  case h_4 leading last =>
    have code : Operation.ofCode? (fieldN word) = some .bitOr := congrArg Operation.ofCode? last
    exact register_cycle_of_unflagged keys meets leading code rfl z
  case h_5 leading last =>
    have code : Operation.ofCode? (fieldN word) = some .bitAnd := congrArg Operation.ofCode? last
    exact register_cycle_of_unflagged keys meets leading code rfl z
  case h_6 leading last =>
    have code : Operation.ofCode? (fieldN word) = some .bitXor := congrArg Operation.ofCode? last
    exact register_cycle_of_unflagged keys meets leading code rfl z

/-- Whatever registers a word of arithmetic names, it answers for the operands that it found,
register F is written last if it answers a flag, and it leaves every other register alone. -/
theorem flag_arithmetic_exact (config : Config) (history : List Interaction) (keys : KeySet)
    (word : UInt16) :
    let m : Machine w h := (new config).through history
    let after := (m.cycle keys).1
    let vx := m.register (fieldX word)
    let vy := m.register (fieldY word)
    m.Meets word →
      (family word = 0x8 → (fieldN word).val ∈ [0x4, 0x5, 0x6, 0x7, 0xE] →
        ∃ result flag : UInt8, flag ≤ 1 ∧
          Operation.Yields config.shifts vx.toNat vy.toNat result.toNat flag.toNat
            (fieldN word) ∧
          ∀ z, after.register z =
            if z = .last 15 then flag else if z = fieldX word then result else m.register z) ∧
        ∀ value, plainResult? word vx vy = some value →
          ∀ z, after.register z = if z = fieldX word then value else m.register z := by
  intro m after vx vy meets
  have loadable : m.Loadable config := (new_loadable config).through history
  have shifts : m.config.shifts = config.shifts := by
    rw [loadable.configured]
    rfl
  refine ⟨?_, fun value computed => register_cycle_of_plain keys meets computed⟩
  intro leading flagged
  obtain ⟨operation, result, flag, code, answers, bit, yields⟩ :=
    Operation.yields_apply config.shifts vx vy flagged
  rw [← shifts] at answers
  refine ⟨result, flag, bit, yields, ?_⟩
  intro z
  rw [register_cycle_of_combine keys meets leading code answers]
  simp only [Option.isSome_some, and_true, Option.getD_some]

/-- A sum that carries into the register that the result was due to. -/
theorem flag_arithmetic_exact_of_flag :
    let m : Machine 8 4 := (new { memorySize := 0x208 }).through
      [.act (.load [0x6F, 0xF5, 0x61, 0x81, 0x8F, 0x14]), .act (.cycle ∅), .act (.cycle ∅)]
    m.Meets 0x8F14 ∧ m.register (fieldX 0x8F14) = 0xF5 ∧ m.register (fieldY 0x8F14) = 0x81 ∧
      (m.cycle ∅).1.register (.last 15) = 1 ∧
      ∀ z, z ≠ .last 15 → (m.cycle ∅).1.register z = m.register z := by
  intro m
  have ready : m.Meets 0x8F14 ∧ m.register (fieldX 0x8F14) = 0xF5 ∧
      m.register (fieldY 0x8F14) = 0x81 := by
    decide +kernel
  have fields : family 0x8F14 = 0x8 ∧ (fieldN 0x8F14).val = 0x4 ∧ fieldX 0x8F14 = .last 15 := by
    decide
  subst m
  obtain ⟨meets, first, second⟩ := ready
  obtain ⟨leading, last, target⟩ := fields
  obtain ⟨result, flag, bit, yields, registers⟩ := (flag_arithmetic_exact (w := 8) (h := 4)
    { memorySize := 0x208 }
    [.act (.load [0x6F, 0xF5, 0x61, 0x81, 0x8F, 0x14]), .act (.cycle ∅), .act (.cycle ∅)] ∅ 0x8F14
    meets).1 leading (by rw [last]; decide)
  rw [last, first, second] at yields
  have sum : 256 * flag.toNat + result.toNat = 0xF5 + 0x81 := yields
  have carried : flag = 1 := by
    have small : result.toNat < 256 := result.toNat_lt
    apply UInt8.toNat_inj.mp
    show flag.toNat = 1
    omega
  refine ⟨meets, first, second, ?_, ?_⟩
  · rw [registers, if_pos rfl, carried]
  · intro z other
    rw [registers, if_neg other, target, if_neg other]

end Machine

end Chip8
