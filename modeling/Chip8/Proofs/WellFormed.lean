import Chip8.Proofs.Timers

/-!
# Well-formed machines

What is always true of a machine that was built by `new` and driven by actions.  A
return address may be the size of memory, when the call was the last word in it; the
fault then waits for the return.  The program counter is only held to memory while
the machine has not stopped.
-/

set_option autoImplicit false

namespace Chip8

namespace KeySet

theorem eq_empty_of_isEmpty {keys : KeySet} (allUp : keys.isEmpty = true) : keys = ∅ := by
  cases keys with
  | mk bits =>
      have zero : bits = 0 := by simpa [isEmpty] using allUp
      rw [zero]
      rfl

theorem eq_empty_of_lowest? {keys : KeySet} (unset : keys.lowest? = none) : keys = ∅ := by
  apply ext_contains
  intro key
  rw [contains_empty]
  by_cases named : key < 16
  · have absent := List.find?_eq_none.mp unset key (List.mem_range.mpr named)
    exact Bool.eq_false_iff.mpr absent
  · exact contains_of_ge (Nat.le_of_not_lt named) keys

end KeySet

namespace CallStack

/-- A stack whose open calls all return to a place in memory or to its end. -/
structure ReturnsWithin (stack : CallStack) (size : Nat) : Prop where
  pointer : stack.pointer ≤ 32
  returns : ∀ address ∈ stack.toList, Instruction.width ≤ address ∧ address ≤ size

theorem empty_returnsWithin (size : Nat) : empty.ReturnsWithin size := by
  refine ⟨Nat.le_refl _, ?_⟩
  intro address listed
  rw [toList_empty] at listed
  exact absurd listed List.not_mem_nil

theorem ReturnsWithin.push {stack : CallStack} {size address : Nat}
    (within : stack.ReturnsWithin size) (room : stack.isFull = false)
    (least : Instruction.width ≤ address) (most : address ≤ size) :
    (stack.push address).ReturnsWithin size := by
  have pointer := within.pointer
  have used : 0 < stack.pointer := Nat.pos_of_ne_zero (by simpa [isFull] using room)
  refine ⟨Nat.le_trans (Nat.sub_le _ _) pointer, ?_⟩
  intro other listed
  rw [toList_push address used pointer, List.mem_cons] at listed
  rcases listed with rfl | earlier
  · exact ⟨least, most⟩
  · exact within.returns other earlier

theorem ReturnsWithin.pop {stack : CallStack} {size : Nat} (within : stack.ReturnsWithin size)
    (inUse : stack.isEmpty = false) : stack.pop.ReturnsWithin size := by
  have used : stack.pointer < 32 := by simpa [isEmpty] using inUse
  obtain ⟨address, _, list⟩ := toList_eq_cons used
  refine ⟨used, ?_⟩
  intro other listed
  exact within.returns other (list ▸ List.mem_cons_of_mem _ listed)

end CallStack

namespace Machine

variable {w h : Nat}

def Timely (m : Machine w h) : Prop := m.delay.OnTime m.clock ∧ m.sound.OnTime m.clock

/-- The latch holds the keys of the latest cycle during a wait, and none otherwise. -/
def Latched (m : Machine w h) : Prop :=
  (m.wait = none → m.latch = ∅) ∧ ∀ x, m.wait = some x → m.latch = m.keys

structure WellFormed (m : Machine w h) : Prop where
  least : Config.minMemory ≤ m.config.memorySize
  most : m.config.memorySize ≤ Config.maxMemory
  size : m.memory.size = m.config.memorySize
  inside : m.isOk = true → m.pc < m.memory.size
  stack : m.stack.ReturnsWithin m.memory.size
  latched : m.Latched
  timely : m.Timely

theorem Latched.of_running {m : Machine w h} (running : m.wait = none) (latch : m.latch = ∅) :
    m.Latched := by
  refine ⟨fun _ => latch, ?_⟩
  intro x waiting
  exact absurd (running.symm.trans waiting) (by simp)

theorem Latched.of_waiting {m : Machine w h} {x : Fin 16} (waiting : m.wait = some x)
    (latch : m.latch = m.keys) : m.Latched := by
  refine ⟨?_, fun _ _ => latch⟩
  intro running
  exact absurd (running.symm.trans waiting) (by simp)

theorem WellFormed.size_pos {m : Machine w h} (wellFormed : m.WellFormed) :
    0 < m.memory.size := by
  rw [wellFormed.size]
  exact Nat.lt_of_lt_of_le (by decide) wellFormed.least

theorem boot_wellFormed (config : Config) (screen : Framebuffer w h) (program : List UInt8)
    (least : Config.minMemory ≤ config.memorySize)
    (most : config.memorySize ≤ Config.maxMemory) :
    (boot config screen program).WellFormed where
  least := least
  most := most
  size := Memory.size_image _ _
  inside := by
    intro _
    have start : Memory.programStart < config.memorySize :=
      Nat.lt_of_lt_of_le (by decide) least
    exact (Memory.size_image config.memorySize _).symm ▸ start
  stack := CallStack.empty_returnsWithin _
  latched := .of_running rfl rfl
  timely := ⟨Countdown.idle_onTime _, Countdown.idle_onTime _⟩

/-! ## A cycle keeps a machine well-formed -/

theorem pc_cycle_lt (keys : KeySet) {m : Machine w h}
    (inside : m.isOk = true → m.pc < m.memory.size)
    (ok : (m.cycle keys).1.isOk = true) : (m.cycle keys).1.pc < m.memory.size := by
  have outcome := m.cycle_outcome keys
  generalize m.cycle keys = done at outcome ok
  cases outcome with
  | stopped fault => exact inside ok
  | polled running waiting how => cases how <;> exact inside running
  | stepped running ready how =>
      cases how with
      | performed fetched decoded accepted inside => exact inside
      | _ => exact absurd ok (by simp [isOk, elapse, stop])

theorem stack_cycle_returnsWithin (keys : KeySet) {m : Machine w h}
    (within : m.stack.ReturnsWithin m.memory.size) :
    (m.cycle keys).1.stack.ReturnsWithin m.memory.size := by
  rw [(m.cycle_effect keys).stack]
  cases executed : m.executes? with
  | none => exact within
  | some instruction =>
      obtain ⟨word, fetched, decoded, accepted⟩ := executes?_eq_some executed
      cases instruction with
      | ret => exact within.pop (isEmpty_of_accepted accepted)
      | call target =>
          have returns := width_le_of_fetch? fetched
          exact within.push (isFull_of_accepted target accepted) (Nat.le_add_left _ _) returns
      | _ => exact within

theorem StepEffect.latched {before after : Machine w h} (effect : StepEffect before after)
    (running : before.wait = none) (latched : before.Latched) : after.Latched := by
  have unlatched := latched.1 running
  have wait := effect.wait
  have latch := effect.latch
  cases executed : before.executes? with
  | none =>
      rw [executed] at wait latch
      exact .of_running (wait.trans running) (latch.trans unlatched)
  | some instruction =>
      rw [executed] at wait latch
      cases instruction with
      | awaitKey x => exact .of_waiting wait (latch.trans effect.keys.symm)
      | _ => exact .of_running (wait.trans running) (latch.trans unlatched)

theorem PollOutcome.latched {x : Fin 16} {before after : Machine w h}
    (how : PollOutcome x before after) (waiting : before.wait = some x) : after.Latched := by
  cases how with
  | held down => exact .of_waiting waiting rfl
  | idle up unlatched =>
      -- Nothing was latched and nothing is down: both sets are empty.
      refine .of_waiting waiting ?_
      rw [KeySet.eq_empty_of_lowest? unlatched, KeySet.eq_empty_of_isEmpty up]
  | released up latched => exact .of_running rfl rfl

theorem cycle_latched (keys : KeySet) {m : Machine w h} (latched : m.Latched) :
    (m.cycle keys).1.Latched := by
  have outcome := m.cycle_outcome keys
  generalize m.cycle keys = done at outcome
  cases outcome with
  | stopped fault => exact latched
  | polled ok waiting how => exact how.latched waiting
  | stepped ok running how =>
      -- The sample is of no consequence to a latch that is empty.
      have sampled : Latched { m with keys } := .of_running running (latched.1 running)
      exact (how.effect ok running).latched running sampled

theorem StepEffect.timely {before after : Machine w h} (effect : StepEffect before after)
    (timely : before.Timely) : after.Timely := by
  rw [Timely, effect.delay, effect.sound, effect.clock]
  obtain ⟨delay, sound⟩ := timely
  cases executed : before.executes? with
  | none => exact ⟨delay, sound⟩
  | some instruction =>
      cases instruction with
      | setDelay x => exact ⟨Countdown.start_onTime _ _, sound⟩
      | setSound x => exact ⟨delay, Countdown.start_onTime _ _⟩
      | _ => exact ⟨delay, sound⟩

theorem PollOutcome.timely {x : Fin 16} {before after : Machine w h}
    (how : PollOutcome x before after) (timely : before.Timely) : after.Timely := by
  obtain ⟨delay, sound⟩ := timely
  cases how with
  | held down =>
      refine ⟨delay, ?_⟩
      show Countdown.OnTime (if _ then _ else _) before.clock
      split
      · exact sound.sustain keyToneLength
      · exact sound
  | idle up unlatched => exact ⟨delay, sound⟩
  | released up latched => exact ⟨delay, sound⟩

theorem elapse_timely {m : Machine w h} {machineCycles : Nat}
    (cheap : machineCycles ≤ Cost.fetch + Cost.clearScreen) (timely : m.Timely) :
    (m.elapse machineCycles).1.Timely := by
  have dear : Cost.clocks machineCycles ≤ dearestCycle := Nat.mul_le_mul_right 8 cheap
  have short := Nat.lt_of_le_of_lt dear dearestCycle_lt_timerPeriod
  exact ⟨timely.1.refresh short, timely.2.refresh short⟩

theorem cycle_timely (keys : KeySet) {m : Machine w h} (timely : m.Timely) :
    (m.cycle keys).1.Timely := by
  have outcome := m.cycle_outcome keys
  generalize m.cycle keys = done at outcome
  cases outcome with
  | stopped fault => exact timely
  | polled ok waiting how =>
      have sampled : Timely { m with keys } := timely
      have cheap : Cost.keyPoll ≤ Cost.fetch + Cost.clearScreen := by decide
      exact elapse_timely cheap (how.timely sampled)
  | stepped ok running how =>
      have sampled : Timely { m with keys } := timely
      have cheap := Nat.add_le_add_left how.cost_le Cost.fetch
      exact elapse_timely cheap ((how.effect ok running).timely sampled)

theorem WellFormed.cycle {m : Machine w h} (wellFormed : m.WellFormed) (keys : KeySet) :
    (m.cycle keys).1.WellFormed := by
  have effect := m.cycle_effect keys
  constructor
  · rw [effect.config]
    exact wellFormed.least
  · rw [effect.config]
    exact wellFormed.most
  · rw [effect.size, effect.config]
    exact wellFormed.size
  · intro ok
    rw [effect.size]
    exact pc_cycle_lt keys wellFormed.inside ok
  · rw [effect.size]
    exact stack_cycle_returnsWithin keys wellFormed.stack
  · exact cycle_latched keys wellFormed.latched
  · exact cycle_timely keys wellFormed.timely

/-! ## Reachable machines -/

theorem new_wellFormed (config : Config) : (new config : Machine w h).WellFormed := by
  have bounds := Config.supportedSize_bounds config.memorySize
  exact boot_wellFormed _ _ _ bounds.1 bounds.2

theorem WellFormed.after {m : Machine w h} (wellFormed : m.WellFormed) (action : Action) :
    (m.after action).WellFormed := by
  cases action with
  | load program => exact boot_wellFormed _ _ _ wellFormed.least wellFormed.most
  | loadStream stream => exact boot_wellFormed _ _ _ wellFormed.least wellFormed.most
  | cycle keys => exact wellFormed.cycle keys
  | invalidate area => exact { wellFormed with }
  | validate => exact { wellFormed with }

theorem WellFormed.afterAll {m : Machine w h} (wellFormed : m.WellFormed)
    (actions : List Action) : (m.afterAll actions).WellFormed :=
  afterAll_keeps (fun _ action before => before.after action) actions wellFormed

theorem config_after (m : Machine w h) (action : Action) :
    (m.after action).config = m.config := by
  cases action with
  | cycle keys => exact (m.cycle_effect keys).config
  | _ => rfl

end Machine

end Chip8
