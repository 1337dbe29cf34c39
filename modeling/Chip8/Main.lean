import Chip8.CommandLine.Reading

/-!
# The program

Carries out the plan for the command line on real files.
-/

set_option autoImplicit false

namespace Chip8.CommandLine

/-- What a failed file operation is taken for. -/
def FileError.ofSystem (error : IO.Error) : FileError :=
  -- Some operations answer the number of the error, others its negation.
  let isNumber (number code : UInt32) : Bool := code = number || code = -number
  match error with
  | .noFileOrDirectory .. => .notFound
  | .permissionDenied .. => .other "Permission denied (os error 13)"
  | .inappropriateType _ code _ => if isNumber 21 code then .isDirectory else .notDirectory
  | .invalidArgument _ code _ =>
      if isNumber 36 code then .nameTooLong else .other error.toString
  | .resourceExhausted _ code _ =>
      if isNumber 28 code then .noSpace else .other error.toString
  | _ => .other error.toString

def Plan.execute : Plan → IO UInt32
  | .exit transcript => do
      IO.print transcript.output
      IO.eprint transcript.errors
      return transcript.exitCode
  | .readFile path next => do
      let answer ← (IO.FS.readBinFile path).toBaseIO
      execute (next ((answer.map ByteArray.toList).mapError FileError.ofSystem))
  | .writeFile path bytes next => do
      let answer ← (IO.FS.writeBinFile path ⟨bytes⟩).toBaseIO
      execute (next (answer.mapError FileError.ofSystem))

end Chip8.CommandLine

def main (words : List String) : IO UInt32 := do
  let anySeed ← IO.rand 0 65535
  (Chip8.CommandLine.Plan.ofWords Chip8.CommandLine.readWords (UInt16.ofNat anySeed) words).execute
