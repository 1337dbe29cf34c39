import Chip8.Machine.Cycle
import Chip8.Proofs.Effect

/-!
# The ways a cycle can go

A cycle of a machine that has not stopped either polls the keys or carries out one
instruction, and an instruction can fail at four points.  `cycle_outcome` lists the
ways, with what was true at each of them; what holds of every cycle is proved way by
way from there.  Whatever happens, a cycle costs at least a key poll and at most a
clearing of the screen, and that is less than a timer period.
-/

set_option autoImplicit false

namespace Chip8.Machine

variable {w h : Nat}

def advance (m : Machine w h) : Machine w h := { m with pc := m.pc + Instruction.width }

inductive StepOutcome (m : Machine w h) : Machine w h × Nat → Prop where
  | unfetched (short : m.fetch? = none) : StepOutcome m (m.stop .outOfBounds, 0)
  | undecoded {word : UInt16} (fetched : m.fetch? = some word)
      (meaningless : Instruction.decode? word = none) :
      StepOutcome m (m.advance.stop .unexpectedOpcode, 0)
  | refused {word : UInt16} {instruction : Instruction} {fault : Fault}
      (fetched : m.fetch? = some word) (decoded : Instruction.decode? word = some instruction)
      (refusal : m.advance.refusal? instruction = some fault) :
      StepOutcome m (m.advance.stop fault, 0)
  | performed {word : UInt16} {instruction : Instruction} (fetched : m.fetch? = some word)
      (decoded : Instruction.decode? word = some instruction)
      (accepted : m.advance.refusal? instruction = none)
      (inside : (m.advance.perform instruction).pc < m.memory.size) :
      StepOutcome m (m.advance.perform instruction, m.advance.cost instruction)
  | ranOff {word : UInt16} {instruction : Instruction} (fetched : m.fetch? = some word)
      (decoded : Instruction.decode? word = some instruction)
      (accepted : m.advance.refusal? instruction = none)
      (outside : m.memory.size ≤ (m.advance.perform instruction).pc) :
      StepOutcome m ((m.advance.perform instruction).stop .outOfBounds, 0)

theorem step_outcome (m : Machine w h) : StepOutcome m m.step := by
  cases fetched : m.fetch? with
  | none =>
      rw [step, fetched]
      exact .unfetched fetched
  | some word =>
      rw [step, fetched]
      show StepOutcome m (m.advance.execute word)
      cases decoded : Instruction.decode? word with
      | none =>
          rw [execute, decoded]
          exact .undecoded fetched decoded
      | some instruction =>
          cases refusal : m.advance.refusal? instruction with
          | some fault =>
              simp only [execute, decoded, refusal]
              exact .refused fetched decoded refusal
          | none =>
              have size := (m.advance.perform_effect instruction).size
              simp only [execute, decoded, refusal, checked]
              split
              · rename_i inside
                exact .performed fetched decoded refusal (size ▸ inside)
              · rename_i outside
                exact .ranOff fetched decoded refusal (size ▸ Nat.le_of_not_lt outside)

inductive PollOutcome (x : Fin 16) (m : Machine w h) : Machine w h → Prop where
  /-- Keys are down: they are latched, and the tone goes on if it is configured to. -/
  | held (down : m.keys.isEmpty = false) :
      PollOutcome x m
        { m with
          latch := m.keys
          sound :=
            if m.config.keyTone then m.sound.sustain keyToneLength m.clock else m.sound }
  /-- No key is down and none was. -/
  | idle (up : m.keys.isEmpty = true) (unlatched : m.latch.lowest? = none) : PollOutcome x m m
  | released {key : Nat} (up : m.keys.isEmpty = true) (latched : m.latch.lowest? = some key) :
      PollOutcome x m ({ m with wait := none, latch := ∅ }.setRegister x (UInt8.ofNat key))

theorem poll_outcome (x : Fin 16) (m : Machine w h) : PollOutcome x m (m.poll x) := by
  cases up : m.keys.isEmpty with
  | true =>
      cases latched : m.latch.lowest? with
      | none =>
          simp only [poll, up, latched, if_true]
          exact .idle up latched
      | some key =>
          simp only [poll, up, latched, if_true]
          exact .released up latched
  | false =>
      have how : PollOutcome x m _ := .held up
      cases tone : m.config.keyTone with
      | true => simpa [poll, up, tone] using how
      | false => simpa [poll, up, tone] using how

inductive CycleOutcome (keys : KeySet) (m : Machine w h) : Machine w h × Nat → Prop where
  | stopped (fault : m.isOk = false) : CycleOutcome keys m (m, 0)
  | polled {x : Fin 16} {after : Machine w h} (ok : m.isOk = true)
      (waiting : m.wait = some x) (how : PollOutcome x { m with keys } after) :
      CycleOutcome keys m (after.elapse Cost.keyPoll)
  | stepped {done : Machine w h × Nat} (ok : m.isOk = true) (running : m.wait = none)
      (how : StepOutcome { m with keys } done) :
      CycleOutcome keys m (done.1.elapse (Cost.fetch + done.2))

theorem cycle_outcome (keys : KeySet) (m : Machine w h) : CycleOutcome keys m (m.cycle keys) := by
  cases ok : m.isOk with
  | false =>
      simp only [cycle, ok, Bool.false_eq_true, if_false]
      exact .stopped ok
  | true =>
      simp only [cycle, ok, if_true]
      split
      · rename_i x waiting
        exact .polled ok waiting (poll_outcome x _)
      · rename_i running
        exact .stepped ok running (step_outcome _)

/-! ## The instruction that a cycle carries out -/

/-- The instruction that the next cycle carries out, if it carries one out: one that was
fetched, means something and is not refused. -/
def executes? (m : Machine w h) : Option Instruction :=
  if m.isOk && !m.isWaiting then
    (m.fetch?.bind Instruction.decode?).filter fun instruction =>
      (m.advance.refusal? instruction).isNone
  else
    none

theorem executes?_of_stopped {m : Machine w h} (stopped : m.isOk = false) :
    m.executes? = none := by
  simp [executes?, stopped]

theorem executes?_of_waiting {m : Machine w h} {x : Fin 16} (waiting : m.wait = some x) :
    m.executes? = none := by
  simp [executes?, isWaiting, waiting]

theorem executes?_of_accepted {m : Machine w h} {word : UInt16} {instruction : Instruction}
    (ok : m.isOk = true) (running : m.wait = none) (fetched : m.fetch? = some word)
    (decoded : Instruction.decode? word = some instruction)
    (accepted : m.advance.refusal? instruction = none) : m.executes? = some instruction := by
  simp [executes?, ok, isWaiting, running, fetched, decoded, Option.filter, accepted]

theorem executes?_eq_some {m : Machine w h} {instruction : Instruction}
    (executed : m.executes? = some instruction) :
    ∃ word, m.fetch? = some word ∧ Instruction.decode? word = some instruction ∧
      m.advance.refusal? instruction = none := by
  unfold executes? at executed
  split at executed
  · obtain ⟨bound, accepted⟩ := Option.filter_eq_some_iff.mp executed
    obtain ⟨word, fetched, decoded⟩ := Option.bind_eq_some_iff.mp bound
    exact ⟨word, fetched, decoded, Option.isNone_iff_eq_none.mp accepted⟩
  · exact absurd executed (by simp)

theorem width_le_of_fetch? {m : Machine w h} {word : UInt16} (fetched : m.fetch? = some word) :
    m.pc + Instruction.width ≤ m.memory.size := by
  unfold fetch? at fetched
  split at fetched
  · assumption
  · exact absurd fetched (by simp)

theorem isEmpty_of_accepted {m : Machine w h} (accepted : m.refusal? .ret = none) :
    m.stack.isEmpty = false := by
  simpa [refusal?] using accepted

theorem isFull_of_accepted {m : Machine w h} (target : Nat)
    (accepted : m.refusal? (.call target) = none) : m.stack.isFull = false := by
  simpa [refusal?] using accepted

structure StepEffect (before after : Machine w h) : Prop where
  config : after.config = before.config
  size : after.memory.size = before.memory.size
  keys : after.keys = before.keys
  clock : after.clock = before.clock
  screen : after.screen = before.executes?.elim before.screen before.advance.screenAfter
  stack : after.stack = before.executes?.elim before.stack before.advance.stackAfter
  wait : after.wait = before.executes?.elim before.wait before.advance.waitAfter
  latch : after.latch = before.executes?.elim before.latch before.advance.latchAfter
  delay : after.delay = before.executes?.elim before.delay before.advance.delayAfter
  sound : after.sound = before.executes?.elim before.sound before.advance.soundAfter

theorem StepEffect.of_failure {m : Machine w h} (unexecuted : m.executes? = none) (pc : Nat)
    (fault : Option Fault) : StepEffect m { m with pc, fault } := by
  constructor <;> simp [unexecuted]

theorem StepEffect.of_success {m after : Machine w h} {instruction : Instruction}
    (executed : m.executes? = some instruction)
    (effect : Effect m.advance instruction after) (fault : Option Fault) :
    StepEffect m { after with fault } := by
  constructor <;> simp only [executed, Option.elim_some]
  · exact effect.config
  · exact effect.size
  · exact effect.keys
  · exact effect.clock
  · exact effect.screen
  · exact effect.stack
  · exact effect.wait
  · exact effect.latch
  · exact effect.delay
  · exact effect.sound

theorem StepOutcome.effect {m : Machine w h} {done : Machine w h × Nat}
    (how : StepOutcome m done) (ok : m.isOk = true) (running : m.wait = none) :
    StepEffect m done.1 := by
  cases how with
  | unfetched short =>
      have unexecuted : m.executes? = none := by simp [executes?, short]
      exact .of_failure unexecuted m.pc _
  | undecoded fetched meaningless =>
      have unexecuted : m.executes? = none := by simp [executes?, fetched, meaningless]
      exact .of_failure unexecuted m.advance.pc _
  | refused fetched decoded refusal =>
      have unexecuted : m.executes? = none := by
        simp [executes?, fetched, decoded, Option.filter, refusal]
      exact .of_failure unexecuted m.advance.pc _
  | @performed word instruction fetched decoded accepted inside =>
      have executed := executes?_of_accepted ok running fetched decoded accepted
      exact .of_success executed (perform_effect _ _) (m.advance.perform instruction).fault
  | ranOff fetched decoded accepted outside =>
      have executed := executes?_of_accepted ok running fetched decoded accepted
      exact .of_success executed (perform_effect _ _) _

/-! ## What a cycle does to the parts of a machine -/

structure PollEffect (before after : Machine w h) : Prop where
  config : after.config = before.config
  memory : after.memory = before.memory
  keys : after.keys = before.keys
  clock : after.clock = before.clock
  screen : after.screen = before.screen
  stack : after.stack = before.stack
  delay : after.delay = before.delay

theorem PollOutcome.effect {x : Fin 16} {m after : Machine w h}
    (how : PollOutcome x m after) : PollEffect m after := by
  cases how <;> exact ⟨rfl, rfl, rfl, rfl, rfl, rfl, rfl⟩

theorem cycle_of_stopped (keys : KeySet) {m : Machine w h} (stopped : m.isOk = false) :
    m.cycle keys = (m, 0) := by
  simp only [cycle, stopped, Bool.false_eq_true, if_false]

theorem cycle_of_waiting (keys : KeySet) {m : Machine w h} {x : Fin 16}
    (ok : m.isOk = true) (waiting : m.wait = some x) :
    m.cycle keys = ({ m with keys }.poll x).elapse Cost.keyPoll := by
  simp only [cycle, ok, if_true, waiting]

theorem cycle_of_running (keys : KeySet) {m : Machine w h} (ok : m.isOk = true)
    (running : m.wait = none) :
    m.cycle keys = { m with keys }.step.1.elapse (Cost.fetch + { m with keys }.step.2) := by
  simp only [cycle, ok, if_true, running]

structure Meets (m : Machine w h) (word : UInt16) : Prop where
  ok : m.isOk = true
  running : m.wait = none
  fetched : m.fetch? = some word

instance (m : Machine w h) (word : UInt16) : Decidable (m.Meets word) :=
  decidable_of_iff (m.isOk = true ∧ m.wait = none ∧ m.fetch? = some word)
    ⟨fun ⟨ok, running, fetched⟩ => ⟨ok, running, fetched⟩,
      fun meets => ⟨meets.ok, meets.running, meets.fetched⟩⟩

theorem meets_of_executes {m : Machine w h} {instruction : Instruction}
    (executed : m.executes? = some instruction) :
    ∃ word, m.Meets word ∧ Instruction.decode? word = some instruction ∧
      m.advance.refusal? instruction = none := by
  obtain ⟨word, fetched, decoded, accepted⟩ := executes?_eq_some executed
  have ready : m.isOk = true ∧ m.wait = none := by
    unfold executes? at executed
    split at executed
    · rename_i ready
      simpa [isWaiting] using ready
    · cases executed
  exact ⟨word, ⟨ready.1, ready.2, fetched⟩, decoded, accepted⟩

theorem executes?_of_meets {m : Machine w h} {word : UInt16} {instruction : Instruction}
    (meets : m.Meets word) (decoded : Instruction.decode? word = some instruction)
    (accepted : m.advance.refusal? instruction = none) : m.executes? = some instruction :=
  executes?_of_accepted meets.ok meets.running meets.fetched decoded accepted

/-- Keys that are looked at make no difference to what is refused. -/
theorem refusal?_keys (keys : KeySet) (m : Machine w h) (instruction : Instruction) :
    { m with keys }.refusal? instruction = m.refusal? instruction := by
  cases instruction <;> rfl

theorem fault_cycle_of_refused (keys : KeySet) {m : Machine w h} {word : UInt16}
    {instruction : Instruction} {fault : Fault} (meets : m.Meets word)
    (decoded : Instruction.decode? word = some instruction)
    (refusal : m.advance.refusal? instruction = some fault) :
    (m.cycle keys).1.fault = some fault := by
  have fetched : { m with keys }.fetch? = some word := meets.fetched
  have refused : { m with keys }.advance.refusal? instruction = some fault :=
    (refusal?_keys keys m.advance instruction).trans refusal
  rw [cycle_of_running keys meets.ok meets.running, step, fetched]
  show (elapse _ (execute word { m with keys }.advance).1).1.fault = some fault
  simp only [execute, decoded, refused]
  rfl

/-- The step of a cycle whose instruction is not refused. -/
theorem step_of_accepted (keys : KeySet) {m : Machine w h} {word : UInt16}
    {instruction : Instruction} (meets : m.Meets word)
    (decoded : Instruction.decode? word = some instruction)
    (accepted : m.advance.refusal? instruction = none) :
    { m with keys }.step =
      ({ m with keys }.advance.perform instruction).checked
        ({ m with keys }.advance.cost instruction) := by
  have fetched : { m with keys }.fetch? = some word := meets.fetched
  have allowed : { m with keys }.advance.refusal? instruction = none :=
    (refusal?_keys keys m.advance instruction).trans accepted
  rw [step, fetched]
  show execute word { m with keys }.advance = _
  simp only [execute, decoded, allowed]

/-- The cycle of an instruction that is not refused.  It takes effect in any case; if that leaves
memory, the machine stops and pays for the fetch only. -/
theorem cycle_eq_of_accepted (keys : KeySet) {m : Machine w h} {word : UInt16}
    {instruction : Instruction} (meets : m.Meets word)
    (decoded : Instruction.decode? word = some instruction)
    (accepted : m.advance.refusal? instruction = none) :
    m.cycle keys =
      if ({ m with keys }.advance.perform instruction).pc < m.memory.size then
        ({ m with keys }.advance.perform instruction).elapse
          (Cost.fetch + { m with keys }.advance.cost instruction)
      else
        (({ m with keys }.advance.perform instruction).stop .outOfBounds).elapse Cost.fetch := by
  have size : ({ m with keys }.advance.perform instruction).memory.size = m.memory.size :=
    ({ m with keys }.advance.perform_effect instruction).size
  rw [cycle_of_running keys meets.ok meets.running, step_of_accepted keys meets decoded accepted,
    checked, size]
  split <;> rfl

/-- An instruction that is not refused takes effect, and the only fault that is left is a
program counter outside memory. -/
theorem cycle_of_accepted (keys : KeySet) {m : Machine w h} {word : UInt16}
    {instruction : Instruction} (meets : m.Meets word)
    (decoded : Instruction.decode? word = some instruction)
    (accepted : m.advance.refusal? instruction = none) {done : Machine w h}
    (performed : { m with keys }.advance.perform instruction = done) :
    (m.cycle keys).1.pc = done.pc ∧
      (m.cycle keys).1.fault =
        if done.pc < m.memory.size then none else some .outOfBounds := by
  have effect := { m with keys }.advance.perform_effect instruction
  rw [performed] at effect
  have ok : done.fault = none := effect.fault.trans (Option.isNone_iff_eq_none.mp meets.ok)
  rw [cycle_eq_of_accepted keys meets decoded accepted, performed]
  split
  · exact ⟨rfl, ok⟩
  · exact ⟨rfl, rfl⟩

/-- A cycle that carries out an instruction leaves all of its effect, in a machine that it
stopped too, and only lets time pass over it. -/
theorem cycle_eq_of_executes (keys : KeySet) {m : Machine w h} {instruction : Instruction}
    (executed : m.executes? = some instruction) :
    ∃ done fault machineCycles, FullEffect { m with keys }.advance instruction done ∧
      m.cycle keys = { done with fault }.elapse machineCycles := by
  obtain ⟨word, meets, decoded, accepted⟩ := meets_of_executes executed
  rw [cycle_eq_of_accepted keys meets decoded accepted]
  split
  · exact ⟨_, _, _, perform_fullEffect _ instruction, rfl⟩
  · exact ⟨_, _, _, perform_fullEffect _ instruction, rfl⟩

/-- Whatever an instruction does to the registers, to memory and to the index is still there
when its cycle is over. -/
theorem cycle_of_executes (keys : KeySet) {m : Machine w h} {instruction : Instruction}
    (executed : m.executes? = some instruction) :
    ∃ done : Machine w h, FullEffect { m with keys }.advance instruction done ∧
      (m.cycle keys).1.registers = done.registers ∧ (m.cycle keys).1.memory = done.memory ∧
      (m.cycle keys).1.index = done.index := by
  obtain ⟨done, fault, machineCycles, effect, left⟩ := cycle_eq_of_executes keys executed
  rw [left]
  exact ⟨done, effect, rfl, rfl, rfl⟩

theorem register_cycle_of_executes (keys : KeySet) {m : Machine w h} {instruction : Instruction}
    (executed : m.executes? = some instruction) (y : Fin 16) :
    (m.cycle keys).1.register y = { m with keys }.advance.registerAfter instruction y := by
  obtain ⟨done, effect, registers, _⟩ := cycle_of_executes keys executed
  rw [register, registers]
  exact effect.registers y

/-- A cycle answers any other fault just if its instruction is refused for it. -/
theorem fault_cycle_iff_refused (keys : KeySet) {m : Machine w h} {word : UInt16}
    {instruction : Instruction} {fault : Fault} (meets : m.Meets word)
    (decoded : Instruction.decode? word = some instruction) (other : fault ≠ .outOfBounds) :
    (m.cycle keys).1.fault = some fault ↔ m.advance.refusal? instruction = some fault := by
  cases refusal : m.advance.refusal? instruction with
  | some actual => rw [fault_cycle_of_refused keys meets decoded refusal]
  | none =>
      have accepted := cycle_of_accepted keys meets decoded refusal rfl
      rw [accepted.2]
      split
      · rfl
      · simp [Ne.symm other]

/-- Whether a cycle under these keys holds the tone for a waiting machine. -/
def holdsTone (m : Machine w h) (keys : KeySet) : Bool :=
  m.isOk && m.isWaiting && !keys.isEmpty && m.config.keyTone

/-- The sound timer as a cycle under these keys leaves it before any time passes. -/
def soundSet (m : Machine w h) (keys : KeySet) : Countdown :=
  if m.holdsTone keys then m.sound.sustain keyToneLength m.clock
  else m.executes?.elim m.sound m.advance.soundAfter

theorem holdsTone_of_running {m : Machine w h} (running : m.wait = none) (keys : KeySet) :
    m.holdsTone keys = false := by
  simp [holdsTone, isWaiting, running]

theorem PollOutcome.sound {x : Fin 16} {m after : Machine w h} {keys : KeySet}
    (ok : m.isOk = true) (waiting : m.wait = some x)
    (how : PollOutcome x { m with keys } after) : after.sound = m.soundSet keys := by
  rw [soundSet, executes?_of_waiting waiting]
  cases how with
  | held down =>
      have someDown : keys.isEmpty = false := down
      simp [holdsTone, ok, isWaiting, waiting, someDown]
  | idle up unlatched =>
      have allUp : keys.isEmpty = true := up
      simp [holdsTone, allUp]
  | released up latched =>
      have allUp : keys.isEmpty = true := up
      simp [holdsTone, allUp, setRegister]

structure CycleEffect (keys : KeySet) (before after : Machine w h) (cost : Nat) : Prop where
  config : after.config = before.config
  size : after.memory.size = before.memory.size
  clock : after.clock = before.clock + cost
  screen : after.screen = before.executes?.elim before.screen before.advance.screenAfter
  stack : after.stack = before.executes?.elim before.stack before.advance.stackAfter
  delay : before.isOk = true → after.delay =
    (before.executes?.elim before.delay before.advance.delayAfter).refresh after.clock
  sound : before.isOk = true → after.sound = (before.soundSet keys).refresh after.clock

theorem cycle_effect (keys : KeySet) (m : Machine w h) :
    CycleEffect keys m (m.cycle keys).1 (m.cycle keys).2 := by
  have outcome := m.cycle_outcome keys
  generalize m.cycle keys = done at outcome
  cases outcome with
  | stopped fault =>
      have unexecuted := executes?_of_stopped fault
      constructor <;> simp [unexecuted, fault]
  | polled ok waiting how =>
      have unexecuted := executes?_of_waiting waiting
      have effect := how.effect
      have sound := how.sound ok waiting
      constructor
      · exact effect.config
      · exact congrArg Memory.size effect.memory
      · rw [clock_elapse, effect.clock]
      · rw [unexecuted]
        exact effect.screen
      · rw [unexecuted]
        exact effect.stack
      · intro _
        rw [unexecuted]
        exact congrArg (Countdown.refresh _) effect.delay
      · intro _
        exact congrArg (Countdown.refresh _) sound
  | stepped ok running how =>
      have effect := how.effect ok running
      have silent := holdsTone_of_running running keys
      constructor
      · exact effect.config
      · exact effect.size
      · rw [clock_elapse, effect.clock]
      · exact effect.screen
      · exact effect.stack
      · intro _
        exact congrArg (Countdown.refresh _) effect.delay
      · intro _
        rw [soundSet, silent]
        exact congrArg (Countdown.refresh _) effect.sound

/-- Every cycle looks at the keys before it does anything else. -/
theorem keys_cycle (keys : KeySet) {m : Machine w h} (ok : m.isOk = true) :
    (m.cycle keys).1.keys = keys := by
  have outcome := m.cycle_outcome keys
  generalize m.cycle keys = done at outcome
  cases outcome with
  | stopped fault => exact absurd (fault.symm.trans ok) (by simp)
  | polled ok waiting how => exact how.effect.keys
  | stepped ok running how => exact (how.effect ok running).keys

/-! ## What a cycle costs -/

theorem skipCost_le (condition : Condition) : skipCost condition ≤ 14 := by
  cases condition <;> simp only [skipCost] <;> decide

theorem cost_le_clearScreen (m : Machine w h) (instruction : Instruction) :
    m.cost instruction ≤ Cost.clearScreen := by
  cases instruction with
  | skip condition =>
      have base := skipCost_le condition
      simp only [cost, Cost.skip, Cost.clearScreen]
      split <;> omega
  | draw x y rows =>
      have few := rows.isLt
      simp only [cost, Cost.draw, Cost.clearScreen]
      omega
  | store x | load x =>
      have few := x.isLt
      simp only [cost, Cost.block, Cost.clearScreen]
      omega
  | _ => simp only [cost]; decide

theorem StepOutcome.cost_le {m : Machine w h} {done : Machine w h × Nat}
    (how : StepOutcome m done) : done.2 ≤ Cost.clearScreen := by
  cases how with
  | performed => exact cost_le_clearScreen _ _
  | _ => exact Nat.zero_le _

def cheapestCycle : Nat := Cost.clocks Cost.keyPoll

theorem cheapestCycle_eq : cheapestCycle = 144 := by decide

theorem cheapestCycle_le (keys : KeySet) {m : Machine w h} (ok : m.isOk = true) :
    cheapestCycle ≤ (m.cycle keys).2 := by
  have outcome := m.cycle_outcome keys
  generalize m.cycle keys = done at outcome
  cases outcome with
  | stopped fault => exact absurd (fault.symm.trans ok) (by simp)
  | polled => exact Nat.le_refl _
  | stepped =>
      rw [cost_elapse, cheapestCycle_eq, Cost.fetch]
      omega

def dearestCycle : Nat := Cost.clocks (Cost.fetch + Cost.clearScreen)

theorem dearestCycle_eq : dearestCycle = 24944 := by decide

theorem dearestCycle_lt_timerPeriod : dearestCycle < Cost.timerPeriod := by decide

theorem cost_cycle_le (keys : KeySet) (m : Machine w h) : (m.cycle keys).2 ≤ dearestCycle := by
  have outcome := m.cycle_outcome keys
  generalize m.cycle keys = done at outcome
  cases outcome with
  | stopped => exact Nat.zero_le _
  | polled => rw [cost_elapse]; decide
  | stepped ok running how =>
      have dear := how.cost_le
      simp only [cost_elapse, dearestCycle, Cost.clocks]
      omega

end Chip8.Machine
