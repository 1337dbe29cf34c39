import Chip8.Log
import Chip8.Machine.Cycle
import Chip8.Machine.Load

/-!
# What a machine reports

The records of building a machine, of a load and of a cycle, each computed from the
machine before it.
-/

set_option autoImplicit false

namespace Chip8

namespace Machine

variable {w h : Nat}

def loadRecord (capacity : Nat) (program : List UInt8) : Record :=
  match loadRefusal? capacity program with
  | some fault => .programRejected program.length fault
  | none => .programLoaded program.length (capacity - program.length)

def loadLog (program : List UInt8) (m : Machine w h) : List Record :=
  [loadRecord (Memory.capacityOf m.config.memorySize) program]

/-- A new machine reports a memory size that it had to adjust and, as nothing has been
loaded, the refusal of an empty program. -/
def newLog (config : Config) : List Record :=
  let used := Config.supportedSize config.memorySize
  let adjusted := if used = config.memorySize then [] else [.sizeAdjusted config.memorySize used]
  adjusted ++ [loadRecord (Memory.capacityOf used) []]

/-- What a running machine reports before its next instruction takes effect. -/
def fetchLog (m : Machine w h) : List Record :=
  match m.fetch? with
  | none => []
  | some word =>
      .fetched m.pc word ::
        match Instruction.decode? word with
        | some (.system _) => if m.config.strict then [] else [.systemCallIgnored word]
        | _ => []

def pollLog (keys : KeySet) (x : Fin 16) (m : Machine w h) : List Record :=
  if keys.isEmpty then
    match m.latch.lowest? with
    | some key => [.keyReleased key x]
    | none => []
  else
    []

/-- The record of a cycle that began at `clock` and left this machine: an error if it
stopped the machine, at the instruction before the program counter. -/
def stopLog (clock : Nat) (m : Machine w h) : List Record :=
  match m.fault with
  | some fault => [.stopped fault (m.pc - Instruction.width) clock]
  | none => []

def cycleLog (keys : KeySet) (m : Machine w h) : List Record :=
  if m.isOk then
    (match m.wait with
      | some x => m.pollLog keys x
      | none => m.fetchLog) ++ (m.cycle keys).1.stopLog m.clock
  else
    []

/-- The records of cycles under the given keys that a listener at the given level hears,
after those already heard. -/
def runLog (listening : Level) : List KeySet → Machine w h → Array Record → Array Record
  | [], _, heard => heard
  | keys :: later, m, heard =>
      let news := (m.cycleLog keys).filter (listening.hears ·.level)
      runLog listening later (m.cycle keys).1 (heard ++ news)

end Machine

end Chip8
