import Chip8.Color
import Chip8.KeySchedule
import Chip8.Config
import Chip8.Text.ControlSequence

/-!
# Arguments of the command line

The arguments that the program knows, how they are spelled, and what can be wrong
with a command line.
-/

set_option autoImplicit false

namespace Chip8.CommandLine

inductive Argument where
  /-- The file that holds the program; it has no name on the command line. -/
  | rom
  | frames
  | profile
  | seed
  | memorySize
  | strict
  | noKeyTone
  | cyclesPerFrame
  | keys
  | dump
  | ascii
  | onColor
  | offColor
  | help
  | version
  deriving DecidableEq

namespace Argument

def all : List Argument :=
  [.rom, .frames, .profile, .seed, .memorySize, .strict, .noKeyTone, .cyclesPerFrame, .keys,
    .dump, .ascii, .onColor, .offColor, .help, .version]

def longName? : Argument → Option String
  | .rom => none
  | .frames => some "frames"
  | .profile => some "profile"
  | .seed => some "seed"
  | .memorySize => some "memory-size"
  | .strict => some "strict"
  | .noKeyTone => some "no-key-tone"
  | .cyclesPerFrame => some "cycles-per-frame"
  | .keys => some "keys"
  | .dump => some "dump"
  | .ascii => some "ascii"
  | .onColor => some "on-color"
  | .offColor => some "off-color"
  | .help => some "help"
  | .version => some "version"

def letter? : Argument → Option Char
  | .frames => some 'f'
  | .profile => some 'p'
  | .keys => some 'k'
  | .help => some 'h'
  | .version => some 'V'
  | _ => none

def valueName? : Argument → Option String
  | .rom => some "ROM"
  | .frames => some "FRAMES"
  | .profile => some "PROFILE"
  | .seed => some "SEED"
  | .memorySize => some "MEMORY_SIZE"
  | .cyclesPerFrame => some "CYCLES_PER_FRAME"
  | .keys => some "KEYS"
  | .dump => some "DUMP"
  | .onColor => some "ON_COLOR"
  | .offColor => some "OFF_COLOR"
  | .strict | .noKeyTone | .ascii | .help | .version => none

def takesValue (argument : Argument) : Bool := argument.valueName?.isSome

/-- How messages show an argument: its long name and its value. -/
def shape (argument : Argument) : String :=
  match argument.longName?, argument.valueName? with
  | some name, some value => "--" ++ name ++ " <" ++ value ++ ">"
  | some name, none => "--" ++ name
  | none, some value => "<" ++ value ++ ">"
  | none, none => ""

def ofLongName? (name : String) : Option Argument := all.find? fun a => a.longName? == some name

def ofLetter? (letter : Char) : Option Argument := all.find? fun a => a.letter? == some letter

end Argument

inductive ValueError where
  | numeral (cause : Text.NumeralError)
  | outOfRange (value : Int) (greatest : Nat)
  | profile (cause : ShiftProfile.UnknownName)
  | color (cause : Color.Malformed)
  | schedule (cause : KeySchedule.Malformed)
  deriving DecidableEq

def ValueError.message : ValueError → String
  | .numeral cause => cause.message
  | .outOfRange value greatest => value.repr ++ " is not in 0..=" ++ greatest.repr
  | .profile cause => cause.message
  | .color cause => cause.message
  | .schedule cause => cause.headline

inductive UsageError where
  | unexpected (text : String)
  | unexpectedValue (argument : Argument) (value : String)
  | repeated (argument : Argument)
  | missingValue (argument : Argument)
  | invalidValue (argument : Argument) (value : String) (cause : ValueError)
  | missingRom
  deriving DecidableEq

/-- The message in pieces, with the text behind it.  What was typed is a piece by itself;
the cause of a bad value quotes it once more, in one piece with what follows. -/
def UsageError.pieces (sequel : String) : UsageError → List String
  | .unexpected text => ["unexpected argument '", text, "' found" ++ sequel]
  | .unexpectedValue argument value =>
      ["unexpected value '", value, "' for '" ++ argument.shape ++
        "' found; no more were expected" ++ sequel]
  | .repeated argument =>
      ["the argument '" ++ argument.shape ++ "' cannot be used multiple times" ++ sequel]
  | .missingValue argument =>
      ["a value is required for '" ++ argument.shape ++ "' but none was supplied" ++ sequel]
  | .invalidValue argument value cause =>
      ["invalid value '", value, "' for '" ++ argument.shape ++ "': " ++ cause.message ++ sequel]
  | .missingRom =>
      ["the following required arguments were not provided:\n  " ++ Argument.rom.shape ++ sequel]

/-- The report on a usage error.  It is printed without control sequences; one that is
unfinished at the end of a piece goes no further. -/
def UsageError.report (wrong : UsageError) : String :=
  String.join
    ((("error: " :: wrong.pieces "\n\nFor more information, try '") ++
      [Argument.help.shape, "'.\n"]).map Text.withoutControls)

end Chip8.CommandLine
