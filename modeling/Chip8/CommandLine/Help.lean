import Chip8.CommandLine.Argument
import Chip8.CommandLine.Options

/-!
# The help text

What the program prints when it is asked for help: one entry for each argument.
-/

set_option autoImplicit false

namespace Chip8.CommandLine

namespace Argument

def about : Argument → String
  | .rom => "Program image to load at 0x200"
  | .frames => "Number of frames to run"
  | .profile => "Shift semantics: original (VIP) or modern"
  | .seed => "RNG seed; random when omitted"
  | .memorySize => "Memory size in bytes"
  | .strict => "Fault on 0NNN machine-code calls instead of ignoring them"
  | .noKeyTone => "Do not sound the tone while a key is held during a key wait"
  | .cyclesPerFrame => "Clock budget per frame"
  | .keys => "Scripted input, e.g. \"10=5,12=,40=AF\""
  | .dump => "Write the final frame as raw RGB24 to this file"
  | .ascii => "Print the final frame as text"
  | .onColor => "Color of lit pixels"
  | .offColor => "Color of dark pixels"
  | .help => "Print help"
  | .version => "Print version"

def default? : Argument → Option String
  | .frames => some ({} : Options).frames.repr
  | .profile => some "modern"
  | .memorySize => some ({} : Options).memorySize.repr
  | .cyclesPerFrame => some ({} : Options).cyclesPerFrame.repr
  | .onColor => some ({} : Options).onColor.toText
  | .offColor => some ({} : Options).offColor.toText
  | _ => none

/-- The entry of a named argument: how it is spelled and, on a line below, what it is for. -/
def entry (argument : Argument) : String :=
  let letter := match argument.letter? with
    | some letter => "-" ++ String.singleton letter ++ ", "
    | none => "    "
  let default := match argument.default? with
    | some value => " [default: " ++ value ++ "]"
    | none => ""
  "  " ++ letter ++ argument.shape ++ "\n          " ++ argument.about ++ default ++ "\n"

end Argument

def helpText : String :=
  "Headless host loop and command-line runner for the VipChip interpreter\n\n" ++
    "Usage: vipchip [OPTIONS] " ++ Argument.rom.shape ++ "\n\n" ++
    "Arguments:\n  " ++ Argument.rom.shape ++ "  " ++ Argument.rom.about ++ "\n\n" ++
    "Options:\n" ++ String.join ((Argument.all.filter (· ≠ .rom)).map Argument.entry)

end Chip8.CommandLine
