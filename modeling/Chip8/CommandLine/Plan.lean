import Chip8.CommandLine.Options
import Chip8.Playback

/-!
# What the program does

The program as a plan: files to read and to write, each with what to do next, and in
the end what to print and how to exit.  A plan can be carried out on real files or on
a file system that is only a value.  Who reads the command line is left open: a plan is
made from whatever options a reader answers.
-/

set_option autoImplicit false

namespace Chip8.CommandLine

inductive FileError where
  | notFound
  | notDirectory
  | isDirectory
  | nameTooLong
  | noSpace
  | other (description : String)
  deriving DecidableEq

def FileError.message : FileError → String
  | .notFound => "No such file or directory (os error 2)"
  | .notDirectory => "Not a directory (os error 20)"
  | .isDirectory => "Is a directory (os error 21)"
  | .nameTooLong => "File name too long (os error 36)"
  | .noSpace => "No space left on device (os error 28)"
  | .other description => description

structure Transcript where
  output : String
  errors : String
  exitCode : UInt32
  deriving DecidableEq

/-- A reader of command lines.  It answers the options that were typed, or, where none are to
be run with, what is printed in place of a run and how the program exits. -/
abbrev Reader := List String → Except Transcript Options

inductive Plan where
  | exit (transcript : Transcript)
  | readFile (path : String) (next : Except FileError (List UInt8) → Plan)
  | writeFile (path : String) (bytes : Array UInt8) (next : Except FileError Unit → Plan)

namespace Plan

/-- A file error ends the program after what it has printed so far. -/
def failure (output doing path : String) (error : FileError) : Plan :=
  .exit
    { output
      errors :=
        "Error: failed to " ++ doing ++ " '" ++ path ++ "'\n\nCaused by:\n    " ++
          error.message ++ "\n"
      exitCode := 1 }

/-- The end of a run: a stopped machine is reported and makes the run a failure. -/
def conclude (output : String) (player : Player) : Plan :=
  match player.machine.fault with
  | none => .exit { output, errors := "", exitCode := 0 }
  | some fault =>
      .exit
        { output
          errors :=
            "Interpreter stopped after " ++ player.frame.repr ++ " frames: " ++ fault.message ++
              "\n"
          exitCode := 1 }

def dumpNotice (path : String) (player : Player) : String :=
  "Wrote " ++ player.surface.size.repr ++ " bytes (64x32 rgb24) after " ++ player.frame.repr ++
    " frames to '" ++ path ++ "'\n"

/-- Show the picture at the end of a run as the options ask. -/
def present (options : Options) (player : Player) : Plan :=
  let picture := if options.ascii then player.machine.screen.toText '#' ' ' else ""
  match options.dump with
  | none => conclude picture player
  | some path =>
      .writeFile path player.surface fun
        | .error error => failure picture "write" path error
        | .ok () => conclude (picture ++ dumpNotice path player) player

def perform (anySeed : UInt16) (options : Options) (program : List UInt8) : Plan :=
  match play program (options.config anySeed) options.settings with
  | .ok player => present options player
  | .error rejected =>
      if rejected.fault.isLoadFault then
        .exit
          { output := ""
            errors :=
              "Program '" ++ options.rom ++ "' rejected: " ++ rejected.fault.message ++ "\n"
            exitCode := 2 }
      else
        .exit
          { output := ""
            errors :=
              "Error: " ++ rejected.context ++ "\n\nCaused by:\n    " ++
                rejected.fault.message ++ "\n"
            exitCode := 1 }

def ofWords (read : Reader) (anySeed : UInt16) (words : List String) : Plan :=
  match read words with
  | .error transcript => .exit transcript
  | .ok options =>
      .readFile options.rom fun
        | .error error => failure "" "read ROM" options.rom error
        | .ok program => perform anySeed options program

end Plan

end Chip8.CommandLine
