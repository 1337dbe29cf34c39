import Chip8.Proofs.Driving

/-!
# A player that loads again is as good as new

A load leaves a player's surface as it is, and this is the only trace of what was played
before.  It stays behind the scenes: what a frame reports hangs on the size of the surface
alone, and the first frame paints all of it over, since a load has marked the whole picture.
-/

set_option autoImplicit false

namespace Chip8

namespace Player

variable {palette : Palette}

theorem followSchedule_surface (player : Player) (surface : Surface) :
    { player with surface }.followSchedule = { player.followSchedule with surface } := by
  unfold followSchedule
  dsimp only
  split <;> rfl

/-- Which area is painted hangs on the size of the surface, not on what it shows. -/
theorem present_surface (player : Player) {surface : Surface}
    (size : surface.size = player.surface.size) :
    ∃ painted, { player with surface }.present =
      ({ player.present.1 with surface := painted }, player.present.2) := by
  unfold present
  dsimp only
  cases changed : player.machine.screen.dirty with
  | none => exact ⟨surface, rfl⟩
  | some area =>
      have same : player.machine.screen.paintedArea area surface =
          player.machine.screen.paintedArea area player.surface := by
        simp only [Framebuffer.paintedArea, size]
      refine ⟨player.machine.screen.paint player.palette area surface, ?_⟩
      simp only [same]

/-- A frame on another surface of the same size is the same frame. -/
theorem runFrame_surface (player : Player) {surface : Surface}
    (size : surface.size = player.surface.size) :
    ∃ painted, { player with surface }.runFrame =
      ({ player.runFrame.1 with surface := painted }, player.runFrame.2) := by
  have followed := player.followSchedule_surface surface
  have untouched := surface_spendBudget player
  obtain ⟨painted, shown⟩ := present_surface player.followSchedule.spendBudget.1
    (size.trans (congrArg Array.size untouched).symm)
  refine ⟨painted, ?_⟩
  have spent : { player with surface }.followSchedule.spendBudget =
      ({ player.followSchedule.spendBudget.1 with surface },
        player.followSchedule.spendBudget.2) := by
    rw [followed]
    rfl
  simp only [runFrame, spent, shown]

/-- Players that keep up with their machines and differ in their surfaces alone have the same
next frame, and differ no more after it. -/
theorem runFrame_congr {a b : Player} (upA : a.KeepsUp palette) (upB : b.KeepsUp palette)
    (same : { a with surface := b.surface } = b) : b.runFrame = a.runFrame := by
  have size : b.surface.size = a.surface.size := upB.shown.size.trans upA.shown.size.symm
  obtain ⟨painted, played⟩ := a.runFrame_surface size
  rw [same] at played
  have whole := surface_runFrame upA
  have wholeB := surface_runFrame upB
  rw [played] at wholeB
  have again : painted = a.runFrame.1.surface := wholeB.trans whole.symm
  rw [played, again]

/-- A player of the given settings is known by its machine, keypad, frame count and surface. -/
theorem SetUp.eq_of {settings : PlayerSettings} {a b : Player} (setUpA : a.SetUp settings)
    (setUpB : b.SetUp settings) (machine : a.machine = b.machine) (keypad : a.keypad = b.keypad)
    (frame : a.frame = b.frame) : { a with surface := b.surface } = b := by
  have schedule : a.schedule = b.schedule := setUpA.schedule.trans setUpB.schedule.symm
  have palette : a.palette = b.palette := setUpA.palette.trans setUpB.palette.symm
  have budget : a.budget = b.budget := setUpA.budget.trans setUpB.budget.symm
  rw [machine, keypad, schedule, palette, budget, frame]

theorem load_eq_load (config : Config) (settings : PlayerSettings) (history : List Action)
    (program : List UInt8) :
    let fresh := (Player.new config settings).load program
    let used := ((Player.new config settings).afterAll history).load program
    used.2 = fresh.2 ∧ { used.1 with surface := fresh.1.surface } = fresh.1 := by
  intro fresh used
  have setUp : (Player.new config settings).SetUp settings := new_setUp config settings
  have loaded : ((Player.new config settings).afterAll history).machine.load program =
      (Player.new config settings).machine.load program :=
    (machine_load_eq_boot config settings history program).trans
      (machine_load_eq_boot config settings [] program).symm
  have machine : used.1.machine = fresh.1.machine := congrArg Prod.fst loaded
  have outcome := congrArg Prod.snd loaded
  refine ⟨outcome, ?_⟩
  exact ((setUp.afterAll history).after (.load program)).eq_of (setUp.after (.load program))
    machine rfl rfl

/-- A player that loads a program answers as a new player that loads it, and is one but for the
surface; and frames that both play, one or more, report the same and leave no difference at
all. -/
theorem runFrames_load_eq_new (config : Config) (settings : PlayerSettings)
    (history : List Action) (program : List UInt8) :
    let fresh := (Player.new config settings).load program
    let used := ((Player.new config settings).afterAll history).load program
    used.2 = fresh.2 ∧ { used.1 with surface := fresh.1.surface } = fresh.1 ∧
      ∀ count, used.1.runFrames (count + 1) = fresh.1.runFrames (count + 1) := by
  intro fresh used
  obtain ⟨outcome, same⟩ := load_eq_load config settings history program
  have upUsed : used.1.KeepsUp settings.palette :=
    ((new_keepsUp config settings).afterAll history).after (.load program)
  have upFresh : fresh.1.KeepsUp settings.palette :=
    (new_keepsUp config settings).after (.load program)
  refine ⟨outcome, same, ?_⟩
  intro count
  rw [runFrames, runFrames, runFrame_congr upUsed upFresh same]

end Player

end Chip8
