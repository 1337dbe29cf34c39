import Chip8.CommandLine.Plan

/-!
# A file system as a value

Files, directories and devices by their place below the root, the way from a path to a
place, and the outcome of a plan.  The steps of a path are taken one by one from the
root or from the working directory, and the first that cannot be taken decides the
error.
-/

set_option autoImplicit false

namespace Chip8.CommandLine

/-! ## Paths -/

/-- A path taken apart. -/
structure Path where
  absolute : Bool
  steps : List String
  slashEnd : Bool
  deriving DecidableEq

namespace Path

/-- The names between the slashes, of which there may be several in a row. -/
def split : List Char → List (List Char)
  | [] => [[]]
  | '/' :: rest => [] :: split rest
  | c :: rest =>
      match split rest with
      | [] => [[c]]
      | step :: others => (c :: step) :: others

def maxLength : Nat := 4095

def maxNameLength : Nat := 255

/-- Take a path apart.  An empty one leads nowhere. -/
def ofText (text : String) : Except FileError Path :=
  if text = "" then .error .notFound
  else if maxLength < text.utf8ByteSize then .error .nameTooLong
  else
    .ok
      { absolute := text.startsWith '/'
        steps := ((split text.toList).filter (! ·.isEmpty)).map String.ofList
        slashEnd := text.endsWith '/' }

/-- Whether a step leads to no name of its own: to the place itself or to the one above. -/
def isRelative (step : String) : Bool := step = "." || step = ".."

end Path

/-! ## Places -/

/-- The names on the way from the root. -/
abbrev Place := List String

inductive Node where
  | directory
  | file (bytes : List UInt8)
  /-- Something that brings nothing when it is read, and swallows what is written unless it
  refuses it. -/
  | device (refusal : Option FileError)
  deriving DecidableEq

structure FileSystem where
  nodes : List (Place × Node)
  working : Place
  deriving DecidableEq

namespace FileSystem

/-- What is at a place; the root is always a directory. -/
def node? (system : FileSystem) : Place → Option Node
  | [] => some .directory
  | place => system.nodes.lookup place

def put (place : Place) (node : Node) (system : FileSystem) : FileSystem :=
  { system with nodes := (place, node) :: system.nodes }

theorem node?_put_self {place : Place} (below : place ≠ []) (node : Node)
    (system : FileSystem) : (system.put place node).node? place = some node := by
  cases place with
  | nil => exact absurd rfl below
  | cons name names => simp [node?, put]

theorem node?_put_of_ne {place other : Place} (apart : other ≠ place) (node : Node)
    (system : FileSystem) : (system.put place node).node? other = system.node? other := by
  cases other with
  | nil => rfl
  | cons name names =>
      have unequal : (name :: names == place) = false := by simp [apart]
      simp [node?, put, List.lookup_cons, unequal]

/-- A system with the usual directories and devices, nothing on its standard input and an
empty working directory. -/
def usual : FileSystem where
  nodes :=
    (["bin", "dev", "etc", "home", "lib", "opt", "proc", "root", "run", "sys", "tmp", "usr",
      "var"].map fun name => ([name], .directory)) ++
    [(["dev", "null"], .device none), (["dev", "stdin"], .device none),
      (["dev", "full"], .device (some .noSpace)), (["tmp", "work"], .directory)]
  working := ["tmp", "work"]

/-! ## Ways -/

def step (system : FileSystem) (place : Place) (name : String) : Except FileError Place :=
  match system.node? place with
  | none => .error .notFound
  | some .directory =>
      if name = "." then .ok place
      else if name = ".." then .ok place.dropLast
      else if Path.maxNameLength < name.utf8ByteSize then .error .nameTooLong
      else if (system.node? (place ++ [name])).isSome then .ok (place ++ [name])
      else .error .notFound
  | some _ => .error .notDirectory

def walk (system : FileSystem) (path : Path) (steps : List String) : Except FileError Place :=
  steps.foldlM system.step (if path.absolute then [] else system.working)

/-! ## Reading and writing -/

def read (system : FileSystem) (text : String) : Except FileError (List UInt8) := do
  let path ← Path.ofText text
  let place ← system.walk path path.steps
  match system.node? place with
  | none => throw .notFound
  | some .directory => throw .isDirectory
  | some (.file bytes) => if path.slashEnd then throw .notDirectory else return bytes
  | some (.device _) => if path.slashEnd then throw .notDirectory else return []

def writeInto (place : Place) (name : String) (bytes : List UInt8) (system : FileSystem) :
    Except FileError FileSystem :=
  match system.step place name with
  | .error .notFound => .ok (system.put (place ++ [name]) (.file bytes))
  | .error error => .error error
  | .ok there =>
      match system.node? there with
      | some .directory => .error .isDirectory
      | some (.device (some refusal)) => .error refusal
      | some (.device none) => .ok system
      | _ => .ok (system.put there (.file bytes))

/-- Write the file that a path names.  All steps but the last have to exist, and the last
has to be a name. -/
def write (text : String) (bytes : List UInt8) (system : FileSystem) :
    Except FileError FileSystem := do
  let path ← Path.ofText text
  match path.steps.getLast? with
  | none => throw .isDirectory
  | some name =>
      if Path.isRelative name then
        let _ ← system.walk path path.steps
        throw .isDirectory
      else
        let place ← system.walk path path.steps.dropLast
        -- The place has to be a directory even where the path asks for another below it.
        let _ ← system.step place "."
        if path.slashEnd then throw .isDirectory
        else system.writeInto place name bytes

end FileSystem

def Plan.runIn (system : FileSystem) : Plan → FileSystem × Transcript
  | .exit transcript => (system, transcript)
  | .readFile path next => runIn system (next (system.read path))
  | .writeFile path bytes next =>
      match system.write path bytes.toList with
      | .ok written => runIn written (next (.ok ()))
      | .error error => runIn system (next (.error error))

end Chip8.CommandLine
