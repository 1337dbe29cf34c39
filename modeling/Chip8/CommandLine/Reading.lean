import Chip8.CommandLine.Help
import Chip8.CommandLine.Plan

/-!
# Reading the command line

A command line is read from the left.  An argument that takes a value waits for it: the
value may be attached, or it is the next word, and it is looked at when the next
argument begins or the line ends.  So a word that names no argument is reported before
a bad value that has just been read.

This is only the reader that the program runs with: what the program then does with the
options is a plan for any reader.
-/

set_option autoImplicit false

namespace Chip8.CommandLine

/-! ## Values -/

def readWord (value : String) : Except ValueError Nat :=
  (Text.readNat Text.maxWord value.toList).mapError .numeral

/-- A number from zero to `greatest`, told apart from numbers outside. -/
def readUpTo (greatest : Nat) (value : String) : Except ValueError Nat :=
  match Text.readInt value.toList with
  | .error cause => .error (.numeral cause)
  | .ok number =>
      if 0 ≤ number ∧ number ≤ greatest then .ok number.toNat
      else .error (.outOfRange number greatest)

/-- Options with the value of an argument taken in.  An argument without value is taken
in whatever the value. -/
def Options.accept (options : Options) (value : String) :
    Argument → Except ValueError Options
  | .rom => .ok { options with rom := value }
  | .frames => return { options with frames := ← readWord value }
  | .profile => return { options with
      profile := ← (ShiftProfile.ofName value).mapError .profile }
  | .seed => return { options with seed := some (UInt16.ofNat (← readUpTo 65535 value)) }
  | .memorySize => return { options with memorySize := ← readWord value }
  | .strict => .ok { options with strict := true }
  | .noKeyTone => .ok { options with noKeyTone := true }
  | .cyclesPerFrame => return { options with cyclesPerFrame := ← readUpTo 4294967295 value }
  | .keys => return { options with
      keys := some (← (KeySchedule.ofText value).mapError .schedule) }
  | .dump => .ok { options with dump := some value }
  | .ascii => .ok { options with ascii := true }
  | .onColor => return { options with onColor := ← (Color.ofText value).mapError .color }
  | .offColor => return { options with offColor := ← (Color.ofText value).mapError .color }
  | .help | .version => .ok options

/-! ## Words -/

inductive Word where
  /-- Two dashes: all words behind are plain. -/
  | separator
  | long (name : String) (attached : Option String)
  /-- Letters behind one dash. -/
  | letters (letters : List Char)
  | plain
  deriving DecidableEq

def Word.ofText (text : String) : Word :=
  match text.toList with
  | ['-', '-'] => .separator
  | '-' :: '-' :: rest =>
      let name := String.ofList (rest.takeWhile (· != '='))
      match rest.dropWhile (· != '=') with
      | _ :: value => .long name (some (String.ofList value))
      | [] => .long name none
  | '-' :: letter :: rest => .letters (letter :: rest)
  | _ => .plain

/-! ## Reading -/

structure Draft where
  options : Options := {}
  given : List Argument := []
  /-- An argument waiting to be taken in, with its value if that has been read. -/
  pending : Option (Argument × Option String) := none
  named : Bool := false
  /-- Whether all further words are plain. -/
  plainOnly : Bool := false

inductive Request where
  | play (options : Options)
  | help
  | version
  deriving DecidableEq

namespace Draft

/-- Take in an argument: once only, a file name only if it is not empty, any other value
if it can be read. -/
def take (argument : Argument) (value : String) (draft : Draft) : Except UsageError Draft :=
  if argument ∈ draft.given then .error (.repeated argument)
  else if (argument = .rom ∨ argument = .dump) ∧ value = "" then .error (.missingValue argument)
  else
    match draft.options.accept value argument with
    | .ok options => .ok { draft with options, given := argument :: draft.given }
    | .error cause => .error (.invalidValue argument value cause)

def settle (draft : Draft) : Except UsageError Draft :=
  match draft.pending with
  | none => .ok draft
  | some (argument, none) => .error (.missingValue argument)
  | some (argument, some value) => { draft with pending := none }.take argument value

def start (argument : Argument) (attached : Option String) (draft : Draft) :
    Except UsageError (Draft ⊕ Request) :=
  if argument.takesValue then do
    let draft ← draft.settle
    match attached with
    | some value => return .inl (← draft.take argument value)
    | none => return .inl { draft with pending := some (argument, none) }
  else
    match attached with
    | some value => .error (.unexpectedValue argument value)
    | none => do
        let draft ← draft.settle
        match argument with
        | .help => return .inr .help
        | .version => return .inr .version
        | flag => return .inl (← draft.take flag "")

/-- The letters behind one dash: arguments without value, and then perhaps one that takes
the rest for its value. -/
def readLetters (draft : Draft) : List Char → Except UsageError (Draft ⊕ Request)
  | [] => .ok (.inl draft)
  | letter :: rest =>
      match Argument.ofLetter? letter with
      | none => .error (.unexpected ("-" ++ String.singleton letter))
      | some argument =>
          if argument.takesValue then
            match rest with
            | [] => draft.start argument none
            | '=' :: value => draft.start argument (some (String.ofList value))
            | value => draft.start argument (some (String.ofList value))
          else
            match draft.start argument none with
            | .ok (.inl draft) => readLetters draft rest
            | stop => stop

/-- A plain word: the value that an argument waits for, or else the file. -/
def readPlain (text : String) (draft : Draft) : Except UsageError Draft :=
  match draft.pending, draft.plainOnly with
  | some (argument, none), false => .ok { draft with pending := some (argument, some text) }
  | _, _ =>
      if draft.named then .error (.unexpected text)
      else do
        let draft ← draft.settle
        return { draft with pending := some (.rom, some text), named := true }

/-- One word; the right-hand answer ends the reading. -/
def readWord (text : String) (draft : Draft) : Except UsageError (Draft ⊕ Request) :=
  match if draft.plainOnly then Word.plain else Word.ofText text with
  | .separator => .ok (.inl { draft with plainOnly := true })
  | .long name attached =>
      match Argument.ofLongName? name with
      | some argument => draft.start argument attached
      | none => .error (.unexpected ("--" ++ name))
  | .letters letters => draft.readLetters letters
  | .plain => (draft.readPlain text).map .inl

def finish (draft : Draft) : Except UsageError Request := do
  let draft ← draft.settle
  if draft.named then return .play draft.options else throw .missingRom

def read (draft : Draft) : List String → Except UsageError Request
  | [] => draft.finish
  | text :: rest =>
      match draft.readWord text with
      | .error wrong => .error wrong
      | .ok (.inr request) => .ok request
      | .ok (.inl draft) => read draft rest

end Draft

def Request.ofWords (words : List String) : Except UsageError Request := ({} : Draft).read words

def versionLine : String := "vipchip 0.1.0\n"

/-- The reader that the program runs with.  A line that is wrong, or that asks for help or for
the version, is dealt with here. -/
def readWords : Reader := fun words =>
  match Request.ofWords words with
  | .error wrong => .error { output := "", errors := wrong.report, exitCode := 2 }
  | .ok .help => .error { output := helpText, errors := "", exitCode := 0 }
  | .ok .version => .error { output := versionLine, errors := "", exitCode := 0 }
  | .ok (.play options) => .ok options

end Chip8.CommandLine
