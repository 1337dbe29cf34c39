import Chip8.Proofs.Driving

/-!
# Frames do not show in a machine

Which area of the picture has yet to be shown is the host's business; no instruction looks
at it.  So a machine that is run frame by frame and shown after each goes the same way as one
that runs on by itself, whatever the budget of a frame, and the clock alone tells how far it
has come.
-/

set_option autoImplicit false

namespace Chip8

namespace Framebuffer

variable {w h : Nat}

theorem validate_eq_of_pixels {a b : Framebuffer w h} (same : a.pixels = b.pixels) :
    a.validate = b.validate := by
  simp only [validate, same]

theorem flipAll_validate (points : List (Nat × Nat)) (fb : Framebuffer w h) :
    fb.validate.flipAll points = (fb.flipAll points).validate := by
  induction points generalizing fb with
  | nil => rfl
  | cons point rest ih =>
      have flipped : fb.validate.flip point.1 point.2 = (fb.flip point.1 point.2).validate := by
        simp only [flip]
        split <;> rfl
      simp only [flipAll, List.foldl_cons, flipped] at ih ⊢
      exact ih _

theorem validate_draw (sprite : Sprite) (fb : Framebuffer w h) :
    (fb.validate.draw sprite).validate = (fb.draw sprite).validate := by
  apply validate_eq_of_pixels
  simp only [draw, pixels_invalidate, flipAll_validate]
  rfl

theorem validate_clear (fb : Framebuffer w h) : fb.validate.clear.validate = fb.clear.validate := by
  apply validate_eq_of_pixels
  rw [pixels_clear, pixels_clear]

end Framebuffer

namespace Machine

variable {w h : Nat}

/-! ## No instruction looks at what is marked -/

theorem holds_unmarked (m : Machine w h) (condition : Condition) :
    m.unmarked.holds condition = m.holds condition := by
  cases condition <;> rfl

theorem refusal?_unmarked (m : Machine w h) (instruction : Instruction) :
    m.unmarked.refusal? instruction = m.refusal? instruction := by
  cases instruction <;> rfl

theorem cost_unmarked (m : Machine w h) (instruction : Instruction) :
    m.unmarked.cost instruction = m.cost instruction := by
  cases instruction with
  | skip condition => simp only [cost, holds_unmarked]
  | _ => rfl

theorem unmarked_perform (m : Machine w h) (instruction : Instruction) :
    (m.unmarked.perform instruction).unmarked = (m.perform instruction).unmarked := by
  cases instruction with
  | clearScreen =>
      have cleared := m.screen.validate_clear
      exact congrArg (fun screen => { m with screen }) cleared
  | draw x y rows =>
      cases nothing : m.drawsNothing rows with
      | true =>
          have still : m.unmarked.drawsNothing rows = true := nothing
          simp only [perform, drawSprite, nothing, still, if_true]
          rfl
      | false =>
          have still : m.unmarked.drawsNothing rows = false := nothing
          have drawn := m.screen.validate_draw (m.sprite x y rows)
          simp only [perform, drawSprite, nothing, still, Bool.false_eq_true, if_false]
          let flag : UInt8 := if m.screen.collides (m.sprite x y rows) then 1 else 0
          exact congrArg (fun screen => { m with screen }.setFlag flag) drawn
  | skip condition =>
      simp only [perform, holds_unmarked]
      split <;> rfl
  | combine operation x y =>
      have same : operation.apply m.unmarked.config.shifts (m.unmarked.register x)
          (m.unmarked.register y) =
        operation.apply m.config.shifts (m.register x) (m.register y) := rfl
      simp only [perform, combine, same]
      split <;> rfl
  | _ => rfl

def unmarkedWith (done : Machine w h × Nat) : Machine w h × Nat := (done.1.unmarked, done.2)

theorem unmarkedWith_checked (machineCycles : Nat) (m : Machine w h) :
    unmarkedWith (m.unmarked.checked machineCycles) = unmarkedWith (m.checked machineCycles) := by
  have pc : m.unmarked.pc = m.pc := rfl
  have size : m.unmarked.memory.size = m.memory.size := rfl
  simp only [checked, pc, size]
  split <;> rfl

theorem unmarkedWith_execute (word : UInt16) (m : Machine w h) :
    unmarkedWith (m.unmarked.execute word) = unmarkedWith (m.execute word) := by
  simp only [execute, refusal?_unmarked, cost_unmarked]
  split
  · rfl
  · rename_i instruction decoded
    split
    · rfl
    · rw [← unmarkedWith_checked _ (m.unmarked.perform instruction), unmarked_perform,
        unmarkedWith_checked]

theorem unmarkedWith_step (m : Machine w h) :
    unmarkedWith m.unmarked.step = unmarkedWith m.step := by
  have same : m.unmarked.fetch? = m.fetch? := rfl
  rw [step, step, same]
  split
  · rfl
  · exact unmarkedWith_execute _ m.advance

theorem unmarked_poll (x : Fin 16) (m : Machine w h) :
    m.unmarked.poll x = (m.poll x).unmarked := by
  have same : m.unmarked.keys = m.keys := rfl
  have latch : m.unmarked.latch = m.latch := rfl
  have tone : m.unmarked.config.keyTone = m.config.keyTone := rfl
  simp only [poll, same, latch, tone]
  split
  · split <;> rfl
  · split <;> rfl

theorem unmarkedWith_elapse {a b : Machine w h} (same : a.unmarked = b.unmarked)
    (machineCycles : Nat) :
    unmarkedWith (a.elapse machineCycles) = unmarkedWith (b.elapse machineCycles) :=
  congrArg (elapse machineCycles) same

theorem unmarkedWith_cycle (keys : KeySet) (m : Machine w h) :
    unmarkedWith (m.unmarked.cycle keys) = unmarkedWith (m.cycle keys) := by
  cases ok : m.isOk with
  | false =>
      rw [cycle_of_stopped keys ok, cycle_of_stopped (m := m.unmarked) keys ok]
      rfl
  | true =>
      cases waiting : m.wait with
      | some x =>
          rw [cycle_of_waiting keys ok waiting, cycle_of_waiting (m := m.unmarked) keys ok waiting]
          exact unmarkedWith_elapse (congrArg unmarked (unmarked_poll x { m with keys })) _
      | none =>
          rw [cycle_of_running keys ok waiting, cycle_of_running (m := m.unmarked) keys ok waiting]
          have stepped := unmarkedWith_step { m with keys }
          have same := congrArg Prod.fst stepped
          have spent := congrArg Prod.snd stepped
          have machineCycles : { m.unmarked with keys }.step.2 = { m with keys }.step.2 := spent
          rw [machineCycles]
          exact unmarkedWith_elapse same _

/-- Machines that differ in what is marked still do after a cycle of the same cost. -/
theorem unmarkedWith_cycle_congr {a b : Machine w h} (same : a.unmarked = b.unmarked)
    (keys : KeySet) : unmarkedWith (a.cycle keys) = unmarkedWith (b.cycle keys) := by
  rw [← unmarkedWith_cycle keys a, same, unmarkedWith_cycle]

theorem unmarked_afterCycles_congr {a b : Machine w h} (same : a.unmarked = b.unmarked)
    (samples : Nat → KeySet) (count : Nat) :
    (a.afterCycles samples count).unmarked = (b.afterCycles samples count).unmarked := by
  induction count with
  | zero => exact same
  | succ count ih => exact congrArg Prod.fst (unmarkedWith_cycle_congr ih _)

end Machine

namespace Player

/-! ## A player that leaves the keys alone -/

structure HandsOff (player : Player) : Prop where
  keypad : player.keypad = ∅
  schedule : player.schedule = .empty

variable {player : Player}

theorem HandsOff.followSchedule (handsOff : player.HandsOff) :
    player.followSchedule = player := by
  rw [Player.followSchedule, handsOff.schedule]
  rfl

theorem HandsOff.runFrame (handsOff : player.HandsOff) : player.runFrame.1.HandsOff := by
  obtain ⟨machine, surface, played⟩ := player.runFrame_eq
  rw [played, handsOff.followSchedule]
  exact ⟨handsOff.keypad, handsOff.schedule⟩

theorem HandsOff.unmarked_runFrames (count : Nat) {player : Player} (handsOff : player.HandsOff) :
    (player.runFrames count).1.machine.unmarked =
      (player.machine.afterCycles (fun _ => ∅) (player.cyclesInFrames count)).unmarked := by
  induction count generalizing player with
  | zero => rfl
  | succ count ih =>
      show (player.runFrame.1.runFrames count).1.machine.unmarked = _
      rw [ih handsOff.runFrame, cyclesInFrames, Machine.afterCycles_add]
      apply Machine.unmarked_afterCycles_congr
      rw [machine_runFrame, handsOff.followSchedule, handsOff.keypad]
      rfl

def unscripted (config : Config) (settings : PlayerSettings) (history : List Action)
    (program : List UInt8) : Player :=
  (((Player.new config { settings with schedule := .empty }).afterAll history).load program).1

theorem unscripted_handsOff (config : Config) (settings : PlayerSettings)
    (history : List Action) (program : List UInt8) :
    (unscripted config settings history program).HandsOff :=
  ⟨rfl, ((new_setUp config { settings with schedule := .empty }).afterAll history).schedule⟩

theorem unscripted_runFrames (config : Config) (settings : PlayerSettings)
    (history : List Action) (program : List UInt8) (count : Nat) :
    let player := unscripted config settings history program
    (player.runFrames count).1.machine.unmarked =
      ((Machine.boot config.supported .blank program).afterCycles (fun _ => ∅)
        (player.cyclesInFrames count)).unmarked := by
  intro player
  have run := (unscripted_handsOff config settings history program).unmarked_runFrames count
  have booted : player.machine = .boot config.supported .blank program :=
    congrArg Prod.fst (machine_load_eq_boot config { settings with schedule := .empty } history
      program)
  rw [← booted]
  exact run

/-- Frames of any budget take a machine exactly as far as their cycles do without a host, but
for what is marked; so players that have come to the same clock have come to the same state,
whatever their budgets, in however many frames. -/
theorem unmarked_runFrames_eq (config : Config) (settings : PlayerSettings)
    (history : List Action) (program : List UInt8) (count : Nat) :
    let player := unscripted config settings history program
    let alone : Machine 64 32 := ((Machine.new config).load program).1
    let last := (player.runFrames count).1.machine
    last.unmarked = (alone.afterCycles (fun _ => ∅) (player.cyclesInFrames count)).unmarked ∧
      ∀ (otherSettings : PlayerSettings) (otherHistory : List Action) (otherCount : Nat),
        let other := unscripted config otherSettings otherHistory program
        let otherLast := (other.runFrames otherCount).1.machine
        otherLast.clock = last.clock → otherLast.unmarked = last.unmarked := by
  intro player alone last
  have booted : alone = .boot config.supported .blank program :=
    congrArg Prod.fst (Machine.load_eq_boot (Machine.new_loadable config) program)
  have here : last.unmarked = _ :=
    booted ▸ unscripted_runFrames config settings history program count
  refine ⟨here, ?_⟩
  intro otherSettings otherHistory otherCount other otherLast sameClock
  have there : otherLast.unmarked = _ :=
    booted ▸ unscripted_runFrames config otherSettings otherHistory program otherCount
  have clocks : otherLast.unmarked.clock = last.unmarked.clock := sameClock
  rw [here, there] at clocks ⊢
  apply congrArg Machine.unmarked
  rcases Nat.le_total (player.cyclesInFrames count) (other.cyclesInFrames otherCount) with
    later | earlier
  · exact Machine.afterCycles_eq_of_clock_eq later clocks
  · exact (Machine.afterCycles_eq_of_clock_eq earlier clocks.symm).symm

/-- Two cycles of an endless jump, in two short frames and in one longer frame. -/
theorem unmarked_runFrames_eq_of_budgets :
    let config : Config := { memorySize := 0x202 }
    let short := (unscripted config { budget := 1 } [] [0x12, 0x00]).runFrames 2
    let long := (unscripted config { budget := 417 } [.frame] [0x12, 0x00]).runFrames 1
    long.1.machine.clock = short.1.machine.clock ∧
      long.1.machine.unmarked = short.1.machine.unmarked := by
  intro config short long
  have sameClock : long.1.machine.clock = short.1.machine.clock := by decide +kernel
  have sliced := unmarked_runFrames_eq config { budget := 1 } [] [0x12, 0x00] 2
  exact ⟨sameClock, sliced.2 { budget := 417 } [.frame] 1 sameClock⟩

end Player

end Chip8
