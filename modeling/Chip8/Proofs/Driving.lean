import Chip8.Proofs.Presentation
import Chip8.Proofs.Reset

/-!
# What a player does to its machine

A player acts on its machine as any host does: it loads programs, runs cycles and shows the
picture.  So what actions keep, players keep.  A frame is a number of whole cycles, counted
here, and then the picture is shown.
-/

set_option autoImplicit false

namespace Chip8

namespace Machine

variable {w h : Nat}

/-- All of a machine but the area that its host has yet to show. -/
def unmarked (m : Machine w h) : Machine w h := m.after .validate

theorem unmarked_of_clean {m : Machine w h} (clean : m.screen.dirty = none) : m.unmarked = m := by
  have shown : m.screen.validate = m.screen := by rw [Framebuffer.validate, ← clean]
  show { m with screen := m.screen.validate } = m
  rw [shown]

end Machine

namespace Player

def cyclesInFrame (player : Player) : Nat :=
  let player := player.followSchedule
  player.machine.cyclesToSpend player.keypad player.budget 0

def cyclesInFrames : Nat → Player → Nat
  | 0, _ => 0
  | count + 1, player => player.cyclesInFrame + cyclesInFrames count player.runFrame.1

theorem machine_followSchedule (player : Player) :
    player.followSchedule.machine = player.machine := by
  obtain ⟨keypad, followed⟩ := player.followSchedule_eq
  rw [followed]

theorem machine_present (player : Player) :
    player.present.1.machine = player.machine.unmarked := by
  unfold present
  cases changed : player.machine.screen.dirty with
  | none => exact (Machine.unmarked_of_clean changed).symm
  | some area => rfl

theorem machine_runFrame (player : Player) :
    player.runFrame.1.machine =
      (player.machine.afterCycles (fun _ => player.followSchedule.keypad)
        player.cyclesInFrame).unmarked := by
  show player.followSchedule.spendBudget.1.present.1.machine = _
  rw [machine_present]
  have spent := Machine.spendFrom_eq_afterCycles player.followSchedule.keypad
    player.followSchedule.budget 0 player.followSchedule.machine
  rw [← player.machine_followSchedule]
  exact congrArg Machine.unmarked spent

/-! ## What a player keeps -/

structure SetUp (settings : PlayerSettings) (player : Player) : Prop where
  schedule : player.schedule = settings.schedule
  palette : player.palette = settings.palette
  budget : player.budget = settings.budget

theorem new_setUp (config : Config) (settings : PlayerSettings) :
    (Player.new config settings).SetUp settings := ⟨rfl, rfl, rfl⟩

/-- A frame changes the machine and the surface, counts itself, and follows the schedule. -/
theorem runFrame_eq (player : Player) :
    ∃ machine surface, player.runFrame.1 =
      { player.followSchedule with machine, surface, frame := player.frame + 1 } := by
  simp only [runFrame, present]
  split
  · exact ⟨_, _, rfl⟩
  · exact ⟨_, _, rfl⟩

theorem SetUp.after {settings : PlayerSettings} {player : Player}
    (setUp : player.SetUp settings) (action : Action) : (player.after action).SetUp settings := by
  cases action with
  | load program => exact ⟨setUp.schedule, setUp.palette, setUp.budget⟩
  | touch event => exact ⟨setUp.schedule, setUp.palette, setUp.budget⟩
  | frame =>
      obtain ⟨keypad, followed⟩ := player.followSchedule_eq
      obtain ⟨machine, surface, played⟩ := player.runFrame_eq
      rw [followed] at played
      show player.runFrame.1.SetUp settings
      rw [played]
      exact ⟨setUp.schedule, setUp.palette, setUp.budget⟩

theorem SetUp.afterAll {settings : PlayerSettings} (actions : List Action) {player : Player}
    (setUp : player.SetUp settings) : (player.afterAll actions).SetUp settings :=
  afterAll_keeps (fun _ action setUp => setUp.after action) actions setUp

/-! ## What actions on machines keep -/

theorem machine_after_keeps {P : Machine 64 32 → Prop}
    (kept : ∀ (m : Machine 64 32) (action : Machine.Action), P m → P (m.after action))
    (player : Player) (action : Action) (start : P player.machine) :
    P (player.after action).machine := by
  cases action with
  | load program => exact kept _ (.load program) start
  | touch event => exact start
  | frame =>
      show P player.runFrame.1.machine
      rw [machine_runFrame]
      apply kept _ .validate
      exact Machine.afterCycles_keeps (fun m keys => kept m (.cycle keys)) _ start _

theorem machine_afterAll_keeps {P : Machine 64 32 → Prop}
    (kept : ∀ (m : Machine 64 32) (action : Machine.Action), P m → P (m.after action))
    (actions : List Action) {player : Player} (start : P player.machine) :
    P (player.afterAll actions).machine := by
  have keptByPlayer : ∀ (player : Player) (action : Action),
      P player.machine → P (player.after action).machine := machine_after_keeps kept
  exact afterAll_keeps keptByPlayer actions start

/-- Whatever has been done with a player, a program that it loads finds a machine made anew. -/
theorem machine_load_eq_boot (config : Config) (settings : PlayerSettings)
    (history : List Action) (program : List UInt8) :
    ((Player.new config settings).afterAll history).machine.load program =
      (.boot config.supported .blank program,
        loadOutcome (Memory.capacityOf config.supported.memorySize) program) := by
  apply Machine.load_eq_boot
  have fresh : (Player.new config settings).machine.Loadable config := Machine.new_loadable config
  exact machine_afterAll_keeps (fun _ action loadable => loadable.after action) history fresh

end Player

end Chip8
