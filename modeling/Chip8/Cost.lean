/-!
# The cost of a cycle

Costs are tabulated in machine cycles of the processor and reported in clocks, of
which a machine cycle takes eight.  The clock also drives the two timers, which
count down sixty times a second.
-/

set_option autoImplicit false

namespace Chip8

namespace Cost

def clockRate : Nat := 1760000

def timerRate : Nat := 60

/-- Clocks between two steps of a running timer. -/
def timerPeriod : Nat := clockRate / timerRate

def clocks (machineCycles : Nat) : Nat := machineCycles * 8

/-- Fetching and decoding, paid by every instruction. -/
def fetch : Nat := 40

/-- One cycle spent waiting for a key. -/
def keyPoll : Nat := 18

def clearScreen : Nat := 3078
def ret : Nat := 10
def system : Nat := 0
def jump : Nat := 12
def call : Nat := 26
def skipByte : Nat := 10
def skipRegister : Nat := 14
def skipKey : Nat := 14
def setByte : Nat := 6
def addByte : Nat := 10
def arithmetic : Nat := 44
def setIndex : Nat := 12
def jumpFrom : Nat := 22
def random : Nat := 36
def readDelay : Nat := 10
def awaitKey : Nat := 18
def setTimer : Nat := 10
def addIndex : Nat := 16
def glyph : Nat := 16
def decimal : Nat := 92

def skip (base : Nat) (taken : Bool) : Nat := if taken then base + 4 else base

def draw (rows : Nat) : Nat := 26 + 46 * rows

def block (registers : Nat) : Nat := 14 + 14 * registers

theorem timerPeriod_eq : timerPeriod = 29333 := by decide

end Cost

end Chip8
