import Chip8.Player

/-!
# What can be set on the command line

The arguments of the program as they come out of the command line, whoever reads it, and
what they say of the machine and of the player.
-/

set_option autoImplicit false

namespace Chip8.CommandLine

structure Options where
  rom : String := ""
  frames : Nat := 600
  profile : ShiftProfile := .modern
  /-- No seed means any seed. -/
  seed : Option UInt16 := none
  memorySize : Nat := 0x1000
  strict : Bool := false
  noKeyTone : Bool := false
  cyclesPerFrame : Nat := Cost.timerPeriod
  keys : Option KeySchedule := none
  dump : Option String := none
  ascii : Bool := false
  onColor : Color := .phosphor
  offColor : Color := .darkGray
  deriving DecidableEq

namespace Options

def config (anySeed : UInt16) (options : Options) : Config where
  shifts := options.profile
  memorySize := options.memorySize
  seed := options.seed.getD anySeed
  strict := options.strict
  keyTone := !options.noKeyTone

def settings (options : Options) : PlayerSettings where
  budget := options.cyclesPerFrame
  frames := options.frames
  palette := { on := options.onColor, off := options.offColor }
  schedule := options.keys.getD .empty

end Options

end Chip8.CommandLine
