import Chip8.Proofs.WellFormed

/-!
# Waiting for a key

A machine that waits for a key polls once a cycle and does nothing else.  The wait ends
with the first release, the first cycle that sees no key down right after one that saw
some.  Keys that were down when the wait began have been seen, so letting go of them is a
release too; and the answer is the lowest of the keys that were down last.
-/

set_option autoImplicit false

namespace Chip8

namespace KeySet

structure IsLowest (keys : KeySet) (key : Nat) : Prop where
  down : keys.contains key = true
  least : ∀ other < key, keys.contains other = false

theorem isEmpty_iff {keys : KeySet} : keys.isEmpty = true ↔ keys = ∅ := by
  constructor
  · exact eq_empty_of_isEmpty
  · rintro rfl
    rfl

theorem lowest?_empty : (∅ : KeySet).lowest? = none := rfl

theorem isLowest_of_lowest? {keys : KeySet} {key : Nat} (lowest : keys.lowest? = some key) :
    key < 16 ∧ keys.IsLowest key := by
  obtain ⟨down, named, least⟩ := List.find?_range_eq_some.mp lowest
  refine ⟨List.mem_range.mp named, down, ?_⟩
  intro other lower
  simpa using least other lower

end KeySet

def Instruction.awaitKeyWord (x : Fin 16) : UInt16 := UInt16.ofNat (0xF00A + 0x100 * x)

theorem Instruction.decode?_awaitKeyWord (x : Fin 16) :
    decode? (awaitKeyWord x) = some (.awaitKey x) := by
  revert x
  decide

namespace Machine

variable {w h : Nat}

/-! ## One cycle of a wait -/

/-- A cycle that polls for a key meant for register `x` and touches nothing else. -/
structure PollsOnly (x : Fin 16) (keys : KeySet) (m : Machine w h) : Prop where
  /-- What lies in memory, and where the program counter points, makes no difference. -/
  blind : ∀ (memory : Memory) (pc : Nat), { m with memory, pc }.cycle keys =
    ({ (m.cycle keys).1 with memory, pc }, (m.cycle keys).2)
  unfetched : ∀ (address : Nat) (word : UInt16), .fetched address word ∉ m.cycleLog keys
  ok : (m.cycle keys).1.isOk = true
  cost : (m.cycle keys).2 = 144
  seed : (m.cycle keys).1.seed = m.seed + 1
  pc : (m.cycle keys).1.pc = m.pc
  index : (m.cycle keys).1.index = m.index
  stack : (m.cycle keys).1.stack = m.stack
  memory : (m.cycle keys).1.memory = m.memory
  screen : (m.cycle keys).1.screen = m.screen
  others : ∀ y, y ≠ x → (m.cycle keys).1.register y = m.register y
  pending : (m.cycle keys).1.isWaiting = true → (m.cycle keys).1.registers = m.registers

theorem poll_blind (x : Fin 16) (m : Machine w h) (memory : Memory) (pc : Nat) :
    { m with memory, pc }.poll x = { m.poll x with memory, pc } := by
  unfold poll
  dsimp only
  split
  · split <;> rfl
  · split <;> rfl

theorem fetched_notMem_cycleLog (keys : KeySet) {m : Machine w h} {x : Fin 16}
    (waiting : m.wait = some x) (address : Nat) (word : UInt16) :
    .fetched address word ∉ m.cycleLog keys := by
  simp only [cycleLog, waiting, pollLog, stopLog]
  grind

/-- What polling leaves alone besides the parts of `PollEffect`. -/
theorem PollOutcome.frame {x : Fin 16} {m after : Machine w h} (how : PollOutcome x m after) :
    after.pc = m.pc ∧ after.index = m.index ∧ after.seed = m.seed ∧ after.fault = m.fault ∧
      (∀ y, y ≠ x → after.register y = m.register y) ∧
      (after.isWaiting = true → after.registers = m.registers) := by
  cases how with
  | held down => exact ⟨rfl, rfl, rfl, rfl, fun _ _ => rfl, fun _ => rfl⟩
  | idle up unlatched => exact ⟨rfl, rfl, rfl, rfl, fun _ _ => rfl, fun _ => rfl⟩
  | released up latched =>
      refine ⟨rfl, rfl, rfl, rfl, ?_, ?_⟩
      · intro y other
        rw [register_setRegister, if_neg (Ne.symm other)]
        rfl
      · intro waits
        cases waits

theorem cycle_pollsOnly (keys : KeySet) {m : Machine w h} {x : Fin 16}
    (ok : m.isOk = true) (waiting : m.wait = some x) : m.PollsOnly x keys := by
  have polled := cycle_of_waiting keys ok waiting
  have how := poll_outcome x { m with keys }
  obtain ⟨pc, index, seed, fault, others, pending⟩ := how.frame
  constructor
  · intro memory pc
    have same := cycle_of_waiting keys (m := { m with memory, pc }) ok waiting
    have blind := poll_blind x { m with keys } memory pc
    rw [same, polled, blind]
    rfl
  · exact fetched_notMem_cycleLog keys waiting
  · rw [polled]
    exact (congrArg Option.isNone fault).trans ok
  · rw [polled]
    rfl
  · rw [polled]
    exact congrArg (· + 1) seed
  · rw [polled]
    exact pc
  · rw [polled]
    exact index
  · rw [polled]
    exact how.effect.stack
  · rw [polled]
    exact how.effect.memory
  · rw [polled]
    exact how.effect.screen
  · rw [polled]
    exact others
  · rw [polled]
    exact pending

/-- Without a release a wait goes on, and the keys of this cycle are those seen last. -/
theorem wait_cycle_of_unreleased {keys : KeySet} {m : Machine w h} {x : Fin 16}
    (ok : m.isOk = true) (waiting : m.wait = some x) (unreleased : keys = ∅ → m.latch = ∅) :
    (m.cycle keys).1.wait = some x ∧ (m.cycle keys).1.latch = keys := by
  rw [cycle_of_waiting keys ok waiting]
  have how := poll_outcome x { m with keys }
  generalize { m with keys }.poll x = after at how
  cases how with
  | held down => exact ⟨waiting, rfl⟩
  | idle up unlatched =>
      have allUp : keys = ∅ := KeySet.isEmpty_iff.mp up
      exact ⟨waiting, (unreleased allUp).trans allUp.symm⟩
  | released up latched =>
      have unlatched : m.latch = ∅ := unreleased (KeySet.isEmpty_iff.mp up)
      have none : m.latch.lowest? = none := unlatched ▸ KeySet.lowest?_empty
      exact absurd (none.symm.trans latched) (by simp)

/-- A release ends a wait and answers the lowest key that was down. -/
theorem wait_cycle_of_released {m : Machine w h} {x : Fin 16} (ok : m.isOk = true)
    (waiting : m.wait = some x) (latched : m.latch ≠ ∅) :
    (m.cycle ∅).1.wait = none ∧ m.latch.IsLowest ((m.cycle ∅).1.register x).toNat := by
  rw [cycle_of_waiting ∅ ok waiting]
  have how := poll_outcome x { m with keys := ∅ }
  generalize { m with keys := ∅ }.poll x = after at how
  cases how with
  | held down => cases down
  | idle up unlatched => exact absurd (KeySet.eq_empty_of_lowest? unlatched) latched
  | @released key up lowest =>
      obtain ⟨named, isLowest⟩ := KeySet.isLowest_of_lowest? lowest
      refine ⟨rfl, ?_⟩
      show m.latch.IsLowest (register (setRegister x (UInt8.ofNat key) _) x).toNat
      have byte : (UInt8.ofNat key).toNat = key :=
        UInt8.toNat_ofNat_of_lt' (Nat.lt_trans named (by decide))
      rw [register_setRegister, if_pos rfl, byte]
      exact isLowest

/-! ## The run of a wait -/

def ReleasedAt (samples : Nat → KeySet) (i : Nat) : Prop :=
  0 < i ∧ samples i = ∅ ∧ samples (i - 1) ≠ ∅

instance (samples : Nat → KeySet) (i : Nat) : Decidable (ReleasedAt samples i) :=
  inferInstanceAs (Decidable (_ ∧ _))

/-- A machine whose next word makes it wait does so afterwards, having seen the keys of that
cycle. -/
theorem wait_cycle_of_awaitKeyWord (keys : KeySet) {m : Machine w h} {x : Fin 16}
    (ok : m.isOk = true) (running : m.wait = none)
    (fetched : m.fetch? = some (Instruction.awaitKeyWord x)) :
    (m.cycle keys).1.wait = some x ∧ (m.cycle keys).1.latch = keys := by
  have executed : { m with keys }.executes? = some (.awaitKey x) :=
    executes?_of_accepted ok running fetched (Instruction.decode?_awaitKeyWord x) rfl
  have outcome := m.cycle_outcome keys
  generalize m.cycle keys = done at outcome
  cases outcome with
  | stopped fault => exact absurd (fault.symm.trans ok) (by simp)
  | polled _ waiting how => exact absurd (running.symm.trans waiting) (by simp)
  | @stepped done _ _ how =>
      have effect := how.effect ok running
      have wait := effect.wait
      have latch := effect.latch
      rw [executed] at wait latch
      exact ⟨wait, latch⟩

/-- While there is no release the wait goes on. -/
theorem waiting_afterCycles {samples : Nat → KeySet} {m : Machine w h} {x : Fin 16}
    (ok : (m.afterCycles samples 1).isOk = true)
    (begun : (m.afterCycles samples 1).wait = some x ∧
      (m.afterCycles samples 1).latch = samples 0) (i : Nat)
    (unreleased : ∀ j ≤ i, ¬ ReleasedAt samples j) :
    (m.afterCycles samples (i + 1)).isOk = true ∧
      (m.afterCycles samples (i + 1)).wait = some x ∧
      (m.afterCycles samples (i + 1)).latch = samples i := by
  induction i with
  | zero => exact ⟨ok, begun⟩
  | succ i ih =>
      obtain ⟨ok, waiting, latched⟩ := ih fun j earlier => unreleased j (Nat.le_succ_of_le earlier)
      rw [afterCycles_succ]
      refine ⟨(cycle_pollsOnly _ ok waiting).ok, wait_cycle_of_unreleased ok waiting ?_⟩
      intro up
      rw [latched]
      apply Decidable.byContradiction
      intro seen
      exact unreleased (i + 1) (Nat.le_refl _) ⟨Nat.succ_pos i, up, seen⟩

/-- A wait for a key ends with the first release and not before, the lowest of the keys let
go is its answer, and until then, in the cycle of the release too, the machine only polls. -/
theorem wait_ends_at_first_release {m : Machine w h} {x : Fin 16} (samples : Nat → KeySet)
    (ok : m.isOk = true) (running : m.wait = none)
    (fetched : m.fetch? = some (Instruction.awaitKeyWord x))
    (stillOk : (m.cycle (samples 0)).1.isOk = true) :
    (∀ i, (∀ j ≤ i, ¬ ReleasedAt samples j) →
        (m.afterCycles samples (i + 1)).wait = some x ∧
          (m.afterCycles samples (i + 1)).latch = samples i) ∧
      (∀ i, ReleasedAt samples i → (∀ j < i, ¬ ReleasedAt samples j) →
        (m.afterCycles samples (i + 1)).wait = none ∧
          (samples (i - 1)).IsLowest ((m.afterCycles samples (i + 1)).register x).toNat) ∧
      ∀ i, 0 < i → (∀ j < i, ¬ ReleasedAt samples j) →
        (m.afterCycles samples i).PollsOnly x (samples i) := by
  have begun := wait_cycle_of_awaitKeyWord (samples 0) ok running fetched
  have waits := fun i => waiting_afterCycles (i := i) stillOk begun
  refine ⟨?_, ?_, ?_⟩
  · intro i unreleased
    exact (waits i unreleased).2
  · intro i released first
    obtain ⟨later, allUp, seen⟩ := released
    cases i with
    | zero => exact absurd later (Nat.lt_irrefl 0)
    | succ i =>
        obtain ⟨ok, waiting, latched⟩ :=
          waits i fun j earlier => first j (Nat.lt_succ_of_le earlier)
        have latch : (m.afterCycles samples (i + 1)).latch ≠ ∅ := latched ▸ seen
        rw [afterCycles_succ, allUp, Nat.add_sub_cancel, ← latched]
        exact wait_cycle_of_released ok waiting latch
  · intro i later unreleased
    cases i with
    | zero => exact absurd later (Nat.lt_irrefl 0)
    | succ i =>
        obtain ⟨ok, waiting, _⟩ :=
          waits i fun j earlier => unreleased j (Nat.lt_succ_of_le earlier)
        exact cycle_pollsOnly (samples (i + 1)) ok waiting

/-- Keys change hands twice before all are let go; the two keys of the last change count. -/
theorem wait_ends_at_first_release_of_change :
    let loaded : Machine 8 4 := ((new { memorySize := 0x204 }).load [0xF3, 0x0A, 0x12, 0x02]).1
    let samples : Nat → KeySet := fun i =>
      [⟨0x0001⟩, ⟨0x0080⟩, ⟨0x1020⟩].getD i ∅
    loaded.isOk = true ∧ loaded.wait = none ∧
      loaded.fetch? = some (Instruction.awaitKeyWord 3) ∧
      (loaded.cycle (samples 0)).1.isOk = true ∧
      (loaded.afterCycles samples 3).wait = some 3 ∧
      (loaded.afterCycles samples 3).latch = samples 2 ∧
      (loaded.afterCycles samples 4).wait = none ∧
      (samples 2).IsLowest ((loaded.afterCycles samples 4).register 3).toNat := by
  intro loaded samples
  have ok : loaded.isOk = true := rfl
  have running : loaded.wait = none := rfl
  have fetched : loaded.fetch? = some (Instruction.awaitKeyWord 3) := by decide +kernel
  have stillOk : (loaded.cycle (samples 0)).1.isOk = true := by decide +kernel
  have ends := wait_ends_at_first_release samples ok running fetched stillOk
  have unreleased : ∀ j ≤ 2, ¬ ReleasedAt samples j := by decide
  obtain ⟨resolved, answer⟩ :=
    ends.2.1 3 (by decide) (fun j early => unreleased j (Nat.le_of_lt_succ early))
  obtain ⟨waiting, latched⟩ := ends.1 2 unreleased
  exact ⟨ok, running, fetched, stillOk, waiting, latched, resolved, answer⟩

end Machine

end Chip8
