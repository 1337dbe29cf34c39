import Chip8.Fault
import Chip8.KeySet
import Chip8.Text.Digits

/-!
# The log

What machines and players report while they work.  A record says what happened; its
level and its wording follow from that.  Records are not part of any state: they are
computed beside it, and only when someone listens.
-/

set_option autoImplicit false

namespace Chip8

open Text (hex)

/-- Levels of importance, the most severe first. -/
inductive Level where
  | error
  | warn
  | info
  | debug
  | trace
  deriving DecidableEq

namespace Level

def rank : Level → Nat
  | .error => 0
  | .warn => 1
  | .info => 2
  | .debug => 3
  | .trace => 4

/-- Whether a listener at level `listening` hears records of level `level`. -/
def hears (listening level : Level) : Bool := level.rank ≤ listening.rank

end Level

def KeySet.describe (keys : KeySet) : String :=
  let names := keys.toList.map fun key => "KEY_" ++ hex 1 key
  "PadKeys(" ++ (if names.isEmpty then "0x0" else String.intercalate " | " names) ++ ")"

inductive Record where
  | sizeAdjusted (asked used : Nat)
  | programLoaded (length free : Nat)
  | programRejected (length : Nat) (fault : Fault)
  /-- A byte stream broke off after `length` bytes. -/
  | streamFailed (length : Nat) (reason : String)
  | fetched (address : Nat) (word : UInt16)
  | systemCallIgnored (word : UInt16)
  | keyReleased (key : Nat) (register : Fin 16)
  | stopped (fault : Fault) (address clock : Nat)
  | keysScheduled (frame : Nat) (keys : KeySet)
  /-- Keys are scheduled for a frame that will not be run. -/
  | scheduleTooLong (frame : Nat)
  | playStarted (frames budget : Nat)
  | playStopped (frame : Nat) (fault : Fault)
  | playFinished (frames clock toneFrames : Nat)

namespace Record

def level : Record → Level
  | .stopped .. => .error
  | .sizeAdjusted .. | .programRejected .. | .streamFailed .. | .scheduleTooLong ..
  | .playStopped .. => .warn
  | .playStarted .. | .playFinished .. => .info
  | .programLoaded .. | .systemCallIgnored .. | .keyReleased .. | .keysScheduled .. => .debug
  | .fetched .. => .trace

def text : Record → String
  | .sizeAdjusted asked used =>
      "memory size 0x" ++ hex 1 asked ++ " out of range, using 0x" ++ hex 1 used
  | .programLoaded length free =>
      "loaded " ++ length.repr ++ " byte program (" ++ free.repr ++ " bytes free)"
  | .programRejected length fault =>
      "program of " ++ length.repr ++ " bytes rejected: " ++ fault.message
  | .streamFailed length reason =>
      "program stream failed after " ++ length.repr ++ " bytes: " ++ reason
  | .fetched address word => hex 3 address ++ ": " ++ hex 4 word.toNat
  | .systemCallIgnored word => "ignoring machine code call " ++ hex 4 word.toNat
  | .keyReleased key register => "key " ++ hex 1 key ++ " released into V" ++ hex 1 register
  | .stopped fault address clock =>
      fault.message ++ " at 0x" ++ hex 3 address ++ " after " ++ clock.repr ++ " cycles"
  | .keysScheduled frame keys => "frame " ++ frame.repr ++ ": keys " ++ keys.describe
  | .scheduleTooLong frame =>
      "key script changes keys at frame " ++ frame.repr ++ ", past the last frame run"
  | .playStarted frames budget =>
      "running " ++ frames.repr ++ " frames at " ++ budget.repr ++ " clocks per frame"
  | .playStopped frame fault => "stopped at frame " ++ frame.repr ++ ": " ++ fault.message
  | .playFinished frames clock toneFrames =>
      "finished after " ++ frames.repr ++ " frames, " ++ clock.repr ++ " clocks, tone on for " ++
        toneFrames.repr ++ " frames"

end Record

end Chip8
