import Chip8.Player

/-!
# What a player reports

The records of a frame: the scheduled change of keys, if there is one, and then what
the machine reports in the frame's cycles.  A frame may have a great many cycles, so
records that the listener does not hear are dropped as they arise.
-/

set_option autoImplicit false

namespace Chip8

namespace Machine

variable {w h : Nat}

def spendLog (listening : Level) (keys : KeySet) (budget spent : Nat) (m : Machine w h)
    (heard : Array Record) : Array Record :=
  if _ : spent < budget ∧ m.isOk = true then
    let news := (m.cycleLog keys).filter (listening.hears ·.level)
    let done := m.cycle keys
    spendLog listening keys budget (spent + done.2) done.1 (heard ++ news)
  else
    heard
  termination_by budget - spent
  decreasing_by
    rename_i running
    have paid := cost_cycle_pos keys running.2
    exact Nat.sub_lt_sub_left running.1 (Nat.lt_add_of_pos_right paid)

end Machine

namespace Player

def newLog (config : Config) : List Record := Machine.newLog config

def loadLog (program : List UInt8) (player : Player) : List Record :=
  player.machine.loadLog program

def scheduleLog (player : Player) : List Record :=
  match player.schedule.keysAt? player.frame with
  | some keys => [.keysScheduled player.frame keys]
  | none => []

/-- The records of one frame that a listener hears, after those already heard. -/
def frameLog (listening : Level) (player : Player) (heard : Array Record) : Array Record :=
  let news := player.scheduleLog.filter (listening.hears ·.level)
  let player := player.followSchedule
  player.machine.spendLog listening player.keypad player.budget 0 (heard ++ news)

end Player

end Chip8
