import Chip8.KeySchedule
import Chip8.Machine.Log
import Chip8.Surface

/-!
# The player

A player runs a machine with the usual display of 64 by 32 pixels frame by frame,
without a window.  At the start of a frame it sets the keypad as its schedule says;
then it spends the frame's budget of clocks and paints what has changed on its
surface.
-/

set_option autoImplicit false

namespace Chip8

structure PlayerSettings where
  budget : Nat := Cost.timerPeriod
  frames : Nat := 600
  palette : Palette := {}
  schedule : KeySchedule := .empty
  deriving DecidableEq

structure FrameReport where
  frame : Nat
  cycles : Nat
  sounding : Bool
  /-- The area painted, if any. -/
  presented : Option Rect
  fault : Option Fault
  deriving DecidableEq

structure Player where
  machine : Machine 64 32
  keypad : KeySet
  schedule : KeySchedule
  palette : Palette
  budget : Nat
  /-- Frames run since the latest load. -/
  frame : Nat
  surface : Surface
  deriving DecidableEq

namespace Machine

variable {w h : Nat}

/-- Run under the same keys until at least `budget` clocks are spent or the machine
stops, `spent` of them already.  Every cycle brings the end nearer, as none is free. -/
def spendFrom (keys : KeySet) (budget spent : Nat) (m : Machine w h) : Machine w h × Nat :=
  if _ : spent < budget ∧ m.isOk = true then
    let done := m.cycle keys
    spendFrom keys budget (spent + done.2) done.1
  else
    (m, spent)
  termination_by budget - spent
  decreasing_by
    rename_i running
    have paid := cost_cycle_pos keys running.2
    exact Nat.sub_lt_sub_left running.1 (Nat.lt_add_of_pos_right paid)

def spend (keys : KeySet) (budget : Nat) (m : Machine w h) : Machine w h × Nat :=
  m.spendFrom keys budget 0

end Machine

namespace Player

def new (config : Config) (settings : PlayerSettings) : Player where
  machine := .new config
  keypad := ∅
  schedule := settings.schedule
  palette := settings.palette
  budget := settings.budget
  frame := 0
  surface := .filled (64 * 32) settings.palette.off

/-- Load a program, release all keys and count frames from zero again.  The surface
stays as it is until the next frame is painted. -/
def load (program : List UInt8) (player : Player) : Player × Except Fault Unit :=
  let loaded := player.machine.load program
  ({ player with machine := loaded.1, keypad := ∅, frame := 0 }, loaded.2)

def touch (event : KeyEvent) (player : Player) : Player :=
  { player with keypad := player.keypad.after event }

def followSchedule (player : Player) : Player :=
  match player.schedule.keysAt? player.frame with
  | some keys => { player with keypad := keys }
  | none => player

/-- Paint what has changed; the answer names the area painted, if anything had. -/
def present (player : Player) : Player × Option Rect :=
  match player.machine.screen.dirty with
  | none => (player, none)
  | some area =>
      let screen := player.machine.screen
      let painted := screen.paintedArea area player.surface
      let surface := screen.paint player.palette area player.surface
      ({ player with
          machine := { player.machine with screen := screen.validate }
          surface },
        some painted)

def spendBudget (player : Player) : Player × Nat :=
  let spent := player.machine.spend player.keypad player.budget
  ({ player with machine := spent.1 }, spent.2)

def runFrame (player : Player) : Player × FrameReport :=
  let frame := player.frame
  let (player, cycles) := player.followSchedule.spendBudget
  let (player, presented) := player.present
  ({ player with frame := frame + 1 },
    { frame
      cycles
      sounding := player.machine.isSounding
      presented
      fault := player.machine.fault })

def runFrames : Nat → Player → Player × List FrameReport
  | 0, player => (player, [])
  | count + 1, player =>
      let (player, report) := player.runFrame
      let (player, reports) := runFrames count player
      (player, report :: reports)

end Player

end Chip8
